/-
# Which name a setting goes by

The settings of a `ConfigStore` are told apart by group and key, without regard to case
(`Setting.answers_iff`).  What is kept of group and key are their first 63 bytes, while `Lookup`
compares the kept names with the whole names asked for.  So a call that sets a value is seen
afterwards exactly when its names fit (`visible_iff_fits`):

* with names of at most 63 bytes the value that was set is found under them, and setting it again, in
  whatever case, adds nothing;
* with a longer name it is not found, and setting it again adds a setting as long as there is room.

No two settings of a table answer to the same name exactly as long as no long name was cut to one
that was there already.
-/
import Mathlib
import Intake.Config.Settings

namespace Intake

/-! ## 1. Names -/

/-- A group and a key, without regard to case. -/
abbrev Name := Bytes × Bytes

/-- The name that a group and a key stand for. -/
def Name.of (group key : Bytes) : Name := (Ascii.fold group, Ascii.fold key)

/-- The name that a setting goes by. -/
def Setting.name (e : Setting) : Name := .of e.group.text e.key.text

theorem Setting.answers_iff (e : Setting) (group key : Bytes) :
    e.answers group key = true ↔ e.name = .of group key := by
  simp only [Setting.answers, Bool.and_eq_true, Ascii.sameText_iff, Setting.name, Name.of,
    Prod.mk.injEq]
  exact and_comm

theorem Setting.answers_eq_decide (e : Setting) (group key : Bytes) :
    e.answers group key = decide (e.name = .of group key) := by
  rw [Bool.eq_iff_iff, decide_eq_true_iff]
  exact e.answers_iff group key

theorem Ascii.length_fold (t : Bytes) : (Ascii.fold t).length = t.length := List.length_map ..

/-- The names of a setting fit into it. -/
def Name.Fits (n : Name) : Prop := n.1.length ≤ 63 ∧ n.2.length ≤ 63

instance (n : Name) : Decidable n.Fits := inferInstanceAs (Decidable (_ ∧ _))

theorem Setting.name_fits (e : Setting) : e.name.Fits := by
  refine ⟨?_, ?_⟩
  · exact (Ascii.length_fold _).le.trans e.group.length_le
  · exact (Ascii.length_fold _).le.trans e.key.length_le

/-! ## 2. Calls that set a value -/

/-- A call that sets a value.  No text holds a zero byte; an absent value counts as the empty one. -/
structure Assignment where
  group : Bytes
  key : Bytes
  value : Option Bytes
  group_whole : (0 : UInt8) ∉ group := by decide
  key_whole : (0 : UInt8) ∉ key := by decide
  value_whole : ∀ v ∈ value, (0 : UInt8) ∉ v := by decide

namespace Assignment

/-- The name that is given a value. -/
def name (a : Assignment) : Name := .of a.group a.key

/-- Group and key have at most 63 bytes. -/
def Fits (a : Assignment) : Prop := a.group.length ≤ 63 ∧ a.key.length ≤ 63

instance (a : Assignment) : Decidable a.Fits := inferInstanceAs (Decidable (_ ∧ _))

/-- The value as it is kept: its first 255 bytes. -/
def kept (a : Assignment) : Bytes := (a.value.getD []).take 255

/-- The name that is kept: the first 63 bytes of group and key. -/
def keptName (a : Assignment) : Name := .of (a.group.take 63) (a.key.take 63)

/-- The setting that is added for a new name. -/
def setting (a : Assignment) : Setting :=
  ⟨.ofBytes 63 a.group, .ofBytes 63 a.key, .ofBytes? 255 a.value⟩

theorem fits_iff (a : Assignment) : a.Fits ↔ a.name.Fits := by
  simp only [Fits, Name.Fits, name, Name.of, Ascii.length_fold]

theorem keptName_of_fits {a : Assignment} (h : a.Fits) : a.keptName = a.name := by
  rw [keptName, List.take_of_length_le h.1, List.take_of_length_le h.2, name]

theorem text_kept (a : Assignment) : (Bounded.ofBytes? 255 a.value).text = a.kept := by
  rw [Bounded.ofBytes?, Bounded.text_ofBytes, kept, untilNul_eq_self]
  cases hv : a.value with
  | none => simp
  | some v => exact a.value_whole v hv

theorem name_setting (a : Assignment) : a.setting.name = a.keptName := by
  simp only [Setting.name, setting, Bounded.text_ofBytes, untilNul_eq_self a.group_whole,
    untilNul_eq_self a.key_whole, keptName]

end Assignment

namespace Settings

variable {s s' : Settings} {log log' : Log} {a b : Assignment} {group key : Bytes}

/-! ## 3. Looking a name up -/

/-- The names of all settings, in the order of the table. -/
def names (s : Settings) : List Name := s.entries.map Setting.name

theorem length_names (s : Settings) : s.names.length = s.size := List.length_map ..

/-- **A name is found when a setting goes by it.** -/
theorem hasKey_iff : s.hasKey group key = true ↔ Name.of group key ∈ s.names := by
  simp only [hasKey, find?, List.find?_isSome, Setting.answers_iff, names, List.mem_map]

theorem hasKey_of_not_fits (h : ¬ a.Fits) : s.hasKey a.group a.key = false := by
  rw [← Bool.not_eq_true, hasKey_iff]
  intro hmem
  obtain ⟨e, -, he⟩ := List.mem_map.mp hmem
  have hfits := e.name_fits
  rw [he] at hfits
  exact h (a.fits_iff.mpr hfits)

/-- A name with the value it has. -/
abbrev Binding := Σ _ : Name, Bytes

/-- Names and values, in the order of the table. -/
def bindings (es : List Setting) : List Binding := es.map fun e => ⟨e.name, e.value.text⟩

theorem dlookup_bindings_cons (n : Name) (e : Setting) (es : List Setting) :
    (bindings (e :: es)).dlookup n
      = if n = e.name then some e.value.text else (bindings es).dlookup n := by
  unfold bindings
  by_cases hn : n = e.name
  · subst hn
    rw [if_pos rfl, List.map_cons, List.dlookup_cons_eq]
  · rw [if_neg hn, List.map_cons, List.dlookup_cons_ne]
    exact hn

theorem keys_bindings (es : List Setting) : (bindings es).keys = es.map Setting.name := by
  simp only [List.keys, bindings, List.map_map]
  rfl

/-- **Looking up goes through the table in its order.** -/
theorem value?_eq_dlookup (s : Settings) (group key : Bytes) :
    s.value? group key = (bindings s.entries).dlookup (.of group key) := by
  rw [value?, find?]
  induction s.entries with
  | nil => rfl
  | cons e es ih =>
    rw [List.find?_cons, dlookup_bindings_cons, Setting.answers_eq_decide]
    by_cases he : e.name = .of group key
    · rw [if_pos he.symm]
      simp only [he, decide_true, Option.map_some]
    · rw [if_neg (Ne.symm he), ← ih]
      simp only [he, decide_false]

/-! ## 4. Setting a value -/

theorem names_overwrite (group key : Bytes) (value : Bounded 255) (es : List Setting) :
    (overwrite group key value es).map Setting.name = es.map Setting.name := by
  induction es with
  | nil => rfl
  | cons e es ih =>
    unfold overwrite
    split
    · rfl
    · rw [List.map_cons, List.map_cons, ih]

theorem dlookup_overwrite {value : Bounded 255} {es : List Setting} (n : Name)
    (hmem : Name.of group key ∈ es.map Setting.name) :
    (bindings (overwrite group key value es)).dlookup n
      = if n = .of group key then some value.text else (bindings es).dlookup n := by
  induction es with
  | nil => cases hmem
  | cons e es ih =>
    unfold overwrite
    rw [Setting.answers_eq_decide]
    by_cases he : e.name = .of group key
    · have hname : ({ e with value } : Setting).name = .of group key := he
      simp only [he, decide_true, if_true, dlookup_bindings_cons, hname]
      split <;> rfl
    · have hrest : Name.of group key ∈ es.map Setting.name :=
        (List.mem_cons.mp hmem).resolve_left (Ne.symm he)
      simp only [he, decide_false, Bool.false_eq_true, if_false, dlookup_bindings_cons, ih hrest]
      by_cases hn : n = e.name
      · have hother : n ≠ .of group key := fun h => he (hn.symm.trans h)
        rw [if_pos hn, if_neg hother, if_pos hn]
      · rw [if_neg hn, if_neg hn]

/-- **All that a call can do**: it changes the setting that goes by the name, or adds one, or finds
the table full. -/
theorem put_cases (s : Settings) (log : Log) (a : Assignment) :
    (a.name ∈ s.names ∧ ∃ s', s.put log a.group a.key a.value = (true, s', log) ∧
      s'.entries = overwrite a.group a.key (.ofBytes? 255 a.value) s.entries) ∨
    (a.name ∉ s.names ∧ s.size < settingsLimit ∧
      ∃ s', s.put log a.group a.key a.value = (true, s', log) ∧
        s'.entries = s.entries ++ [a.setting]) ∨
    (a.name ∉ s.names ∧ s.size = settingsLimit ∧
      s.put log a.group a.key a.value = (false, s, log.record (.tableFull a.group a.key))) := by
  have hfound : s.hasKey a.group a.key = true ↔ a.name ∈ s.names := hasKey_iff
  by_cases hkey : s.hasKey a.group a.key = true
  · have hlen : (overwrite a.group a.key (.ofBytes? 255 a.value) s.entries).length
        ≤ settingsLimit := (length_overwrite ..).trans_le s.length_le
    refine Or.inl ⟨hfound.mp hkey, ⟨_, hlen⟩, ?_, rfl⟩
    simp only [put, set?, hkey, if_true]
  · refine Or.inr ?_
    have hnew : a.name ∉ s.names := fun h => hkey (hfound.mpr h)
    by_cases hroom : s.entries.length < settingsLimit
    · have hlen : (s.entries ++ [a.setting]).length ≤ settingsLimit := by
        rw [List.length_append, List.length_singleton]
        exact hroom
      refine Or.inl ⟨hnew, hroom, ⟨_, hlen⟩, ?_, rfl⟩
      simp only [put, set?, hkey, hroom, dif_pos]
      rfl
    · refine Or.inr ⟨hnew, Nat.le_antisymm s.length_le (Nat.not_lt.mp hroom), ?_⟩
      simp only [put, set?, hkey, hroom, dif_neg, not_false_eq_true]
      rfl

theorem names_put (s : Settings) (log : Log) (a : Assignment) :
    (s.put log a.group a.key a.value).2.1.names
      = if a.name ∈ s.names ∨ s.size = settingsLimit then s.names
        else s.names ++ [a.keptName] := by
  rcases s.put_cases log a with ⟨hmem, s', hput, hentries⟩ | ⟨hnew, hroom, s', hput, hentries⟩ |
    ⟨hnew, hfull, hput⟩
  · rw [hput, if_pos (Or.inl hmem), names, hentries, names_overwrite, names]
  · rw [hput, if_neg (not_or.mpr ⟨hnew, hroom.ne⟩), names, hentries, List.map_append, names,
      List.map_singleton, a.name_setting]
  · rw [hput, if_pos (Or.inr hfull)]

theorem put_fst_eq_false_iff (s : Settings) (log : Log) (a : Assignment) :
    (s.put log a.group a.key a.value).1 = false ↔
      a.name ∉ s.names ∧ s.size = settingsLimit := by
  rcases s.put_cases log a with ⟨hmem, s', hput, -⟩ | ⟨hnew, hroom, s', hput, -⟩ |
    ⟨hnew, hfull, hput⟩
  · simp [hput, hmem]
  · simp [hput, hroom.ne]
  · simp [hput, hnew, hfull]

theorem put_refused (h : (s.put log a.group a.key a.value).1 = false) :
    (s.put log a.group a.key a.value).2.1 = s := by
  rcases s.put_cases log a with ⟨-, s', hput, -⟩ | ⟨-, -, s', hput, -⟩ | ⟨-, -, hput⟩
  · rw [hput] at h
    cases h
  · rw [hput] at h
    cases h
  · rw [hput]

/-- **What is found after a call whose names fit**: the new value under its name, and under every
other name what was there before. -/
theorem dlookup_put (hfits : a.Fits) (haccepted : (s.put log a.group a.key a.value).1 = true)
    (n : Name) :
    (bindings (s.put log a.group a.key a.value).2.1.entries).dlookup n
      = if n = a.name then some a.kept else (bindings s.entries).dlookup n := by
  rcases s.put_cases log a with ⟨hmem, s', hput, hentries⟩ | ⟨hnew, -, s', hput, hentries⟩ |
    ⟨-, -, hput⟩
  · rw [hput, hentries, dlookup_overwrite n hmem, a.text_kept]
    rfl
  · have hlast : a.setting.name = a.name := by
      rw [a.name_setting, Assignment.keptName_of_fits hfits]
    have hkept : a.setting.value.text = a.kept := a.text_kept
    have hnone : (bindings s.entries).dlookup a.name = none := by
      rw [List.dlookup_eq_none, keys_bindings]
      exact hnew
    have happend : bindings (s.entries ++ [a.setting])
        = bindings s.entries ++ bindings [a.setting] := List.map_append
    rw [hput, hentries, happend, List.dlookup_append, dlookup_bindings_cons, hlast, hkept]
    by_cases hname : n = a.name
    · rw [if_pos hname, if_pos hname, hname, hnone, Option.none_or]
    · rw [if_neg hname, if_neg hname]
      exact Option.or_none
  · rw [hput] at haccepted
    cases haccepted

/-! ## 5. Rows of calls -/

/-- A table and its log after a row of calls. -/
def after (s : Settings × Log) (row : List Assignment) : Settings × Log :=
  row.foldl (fun s a => (s.1.put s.2 a.group a.key a.value).2) s

theorem after_concat (s : Settings × Log) (row : List Assignment) (a : Assignment) :
    after s (row ++ [a])
      = ((after s row).1.put (after s row).2 a.group a.key a.value).2 :=
  List.foldl_concat ..

/-- A name that is in the table stays the only one that calls for it are about. -/
theorem names_after_of_mem {n : Name} {row : List Assignment} (hmem : n ∈ s.names)
    (hrow : ∀ b ∈ row, b.name = n) : (after (s, log) row).1.names = s.names := by
  induction row using List.reverseRecOn with
  | nil => rfl
  | append_singleton row b ih =>
    have hsame := ih fun b hb => hrow b (List.mem_append_left _ hb)
    have hname : b.name = n := hrow b (by simp)
    rw [after_concat, names_put, hsame, hname, if_pos (Or.inl hmem)]

/-- **A name stays in the table**, and so does its place there. -/
theorem names_prefix_put (s : Settings) (log : Log) (a : Assignment) :
    s.names <+: (s.put log a.group a.key a.value).2.1.names := by
  rw [names_put]
  split
  · exact List.prefix_refl _
  · exact List.prefix_append _ _

theorem names_prefix_after (s : Settings × Log) (row : List Assignment) :
    s.1.names <+: (after s row).1.names := by
  induction row using List.reverseRecOn with
  | nil => exact List.prefix_refl _
  | append_singleton row a ih =>
    rw [after_concat]
    exact ih.trans (names_prefix_put ..)

/-! ## 6. Settings that answer to one name -/

/-- No two settings of the table answer to the same name. -/
def Unambiguous (s : Settings) : Prop :=
  s.entries.Pairwise fun e e' => ∀ group key, ¬ (e.answers group key ∧ e'.answers group key)

theorem unambiguous_iff (s : Settings) : s.Unambiguous ↔ s.names.Nodup := by
  rw [Unambiguous, names, List.Nodup, List.pairwise_map]
  refine List.Pairwise.iff fun {e e'} => ?_
  simp only [Setting.answers_iff]
  constructor
  · exact fun h hname => h e.group.text e.key.text ⟨rfl, hname.symm⟩
  · exact fun h group key hboth => h (hboth.1.trans hboth.2.symm)

end Settings

/-- The call adds a setting, under a name that is in the table already: a longer name is cut to it. -/
def Assignment.Crowds (a : Assignment) (s : Settings) : Prop :=
  a.name ∉ s.names ∧ s.size ≠ settingsLimit ∧ a.keptName ∈ s.names

theorem Assignment.not_crowds_of_fits {a : Assignment} (h : a.Fits) (s : Settings) :
    ¬ a.Crowds s := by
  rintro ⟨hnew, -, hold⟩
  rw [keptName_of_fits h] at hold
  exact hnew hold

namespace Settings

variable {s s' : Settings} {log log₀ log' : Log} {a : Assignment} {history : List Assignment}

theorem nodup_names_put :
    (s.put log a.group a.key a.value).2.1.names.Nodup ↔ s.names.Nodup ∧ ¬ a.Crowds s := by
  rw [names_put, Assignment.Crowds]
  split
  · rename_i h
    simp only [not_and]
    exact ⟨fun hnodup => ⟨hnodup, fun hnew hroom => absurd h (not_or.mpr ⟨hnew, hroom⟩)⟩,
      fun hboth => hboth.1⟩
  · rename_i h
    obtain ⟨hnew, hroom⟩ := not_or.mp h
    rw [List.nodup_append_comm, List.singleton_append, List.nodup_cons]
    exact ⟨fun hboth => ⟨hboth.2, fun hcrowds => hboth.1 hcrowds.2.2⟩,
      fun hboth => ⟨fun hold => hboth.2 ⟨hnew, hroom, hold⟩, hboth.1⟩⟩

/-- **Two settings come to one name exactly when a call adds the second**, for a name that is cut.
The induction is on the calls, the last one first. -/
theorem nodup_names_after (log : Log) (history : List Assignment) :
    (after (.empty, log) history).1.names.Nodup ↔
      ∀ before b behind, history = before ++ b :: behind →
        ¬ b.Crowds (after (.empty, log) before).1 := by
  induction history using List.reverseRecOn with
  | nil =>
    refine ⟨fun _ before b behind h => ?_, fun _ => List.nodup_nil⟩
    simp at h
  | append_singleton history a ih =>
    rw [after_concat, nodup_names_put, ih]
    constructor
    · rintro ⟨hbefore, hlast⟩ before b behind hsplit
      rcases List.eq_nil_or_concat behind with rfl | ⟨between, c, rfl⟩
      · obtain ⟨rfl, hb⟩ := List.append_inj' hsplit rfl
        obtain rfl := List.singleton_inj.mp hb
        exact hlast
      · have hshift : before ++ b :: between.concat c = (before ++ b :: between) ++ [c] := by simp
        rw [hshift] at hsplit
        exact hbefore before b between (List.append_inj' hsplit rfl).1
    · intro hall
      refine ⟨fun before b behind hsplit => ?_, hall history a [] rfl⟩
      refine hall before b (behind ++ [a]) ?_
      rw [hsplit, List.append_assoc, List.cons_append]

/-! ## 7. What a call leaves to be seen -/

/-- The table after a call for a name that fits has the name, with the new value. -/
theorem seen_of_fits (hfits : a.Fits)
    (hput : s.put log a.group a.key a.value = (true, s', log')) (fallback : Bytes) :
    s'.hasKey a.group a.key = true ∧ s'.text a.group a.key fallback = a.kept := by
  have haccepted : (s.put log a.group a.key a.value).1 = true := by rw [hput]
  have hvalue := dlookup_put hfits haccepted a.name
  rw [hput, if_pos rfl] at hvalue
  have hvalue : s'.value? a.group a.key = some a.kept := (value?_eq_dlookup ..).trans hvalue
  refine ⟨?_, ?_⟩
  · rw [value?, Option.map_eq_some_iff] at hvalue
    obtain ⟨e, he, -⟩ := hvalue
    rw [hasKey, he]
    rfl
  · rw [text, hvalue]
    rfl

/-- **An accepted value is seen exactly when its names fit**, whatever calls came before.  Only then
setting it again, in any case, never adds a setting (or because there is no room for one); and the
settings answer to different names as long as no name was cut to one that was there.

Names are kept cut and are looked up uncut, so that a name that was cut answers to nobody. The first
63 bytes of a long name can be the whole of another one, and then two settings have the same kept
name: that is the only way to come to two of them. -/
theorem visible_iff_fits (hhistory : after (.empty, log₀) history = (s, log))
    (hput : s.put log a.group a.key a.value = (true, s', log')) :
    ((s'.hasKey a.group a.key = true ∧ ∀ fallback, s'.text a.group a.key fallback = a.kept) ↔
      a.Fits) ∧
    ((∀ again : List Assignment, (∀ b ∈ again, b.name = a.name) →
        (after (s', log') again).1.size = s'.size) ↔ a.Fits ∨ s'.size = settingsLimit) ∧
    (s'.Unambiguous ↔ ∀ before b behind, history ++ [a] = before ++ b :: behind →
      ¬ b.Crowds (after (.empty, log₀) before).1) := by
  refine ⟨⟨?_, ?_⟩, ⟨?_, ?_⟩, ?_⟩
  · rintro ⟨hkey, -⟩
    by_contra hlong
    rw [hasKey_of_not_fits hlong] at hkey
    cases hkey
  · exact fun hfits => ⟨(seen_of_fits hfits hput []).1, fun fallback =>
      (seen_of_fits hfits hput fallback).2⟩
  · intro hsame
    by_contra hneither
    obtain ⟨hlong, hroom⟩ := not_or.mp hneither
    have hnew : a.name ∉ s'.names := by
      intro hmem
      have hkey := hasKey_of_not_fits (s := s') hlong
      rw [hasKey_iff.mpr hmem] at hkey
      cases hkey
    have hagain := hsame [a] (by simp)
    have hnames := names_put s' log' a
    rw [if_neg (not_or.mpr ⟨hnew, hroom⟩)] at hnames
    have hlen := congrArg List.length hnames
    rw [length_names, List.length_append, length_names, List.length_singleton] at hlen
    have hone : (after (s', log') [a]).1.size = s'.size + 1 := hlen
    omega
  · rintro (hfits | hfull) again hagain
    · have hmem : a.name ∈ s'.names := hasKey_iff.mp (seen_of_fits hfits hput []).1
      rw [← length_names, names_after_of_mem hmem hagain, length_names]
    · refine Nat.le_antisymm ?_ ?_
      · rw [hfull]
        exact (after (s', log') again).1.length_le
      · rw [← length_names, ← length_names]
        exact (names_prefix_after (s', log') again).length_le
  · have hafter : after (.empty, log₀) (history ++ [a]) = (s', log') := by
      rw [after_concat, hhistory]
      exact congrArg Prod.snd hput
    rw [unambiguous_iff, ← nodup_names_after log₀ (history ++ [a]), hafter]

/-- A value of 300 bytes for a key of 63. -/
def longest : Assignment where
  group := Bytes.ofAscii "Ingest"
  key := List.replicate 63 65
  value := some (List.replicate 300 48)

/-- The same key in small letters. -/
def recased : Assignment where
  group := Bytes.ofAscii "ingest"
  key := List.replicate 63 97
  value := some [49]

/-- The value is cut and found, and small letters do not add a setting. -/
theorem visible_iff_fits_longest :
    ∃ s', empty.put .empty longest.group longest.key longest.value = (true, s', .empty) ∧
      s'.hasKey longest.group longest.key = true ∧
      s'.text longest.group longest.key [] = List.replicate 255 48 ∧
      (after (s', .empty) [recased, recased]).1.size = s'.size ∧ s'.Unambiguous := by
  obtain ⟨s', hput⟩ : ∃ s', empty.put .empty longest.group longest.key longest.value
      = (true, s', .empty) := ⟨_, rfl⟩
  have hfits : longest.Fits := by decide
  have hhistory : after (.empty, .empty) [] = (empty, .empty) := rfl
  have hvisible := visible_iff_fits hhistory hput
  obtain ⟨hkey, htext⟩ := hvisible.1.mpr hfits
  refine ⟨s', hput, hkey, (htext []).trans List.take_replicate, ?_, ?_⟩
  · exact hvisible.2.1.mpr (Or.inl hfits) [recased, recased] (by decide)
  · refine hvisible.2.2.mpr fun before b behind hsplit => ?_
    obtain ⟨rfl, hcons⟩ := List.append_eq_singleton_iff.mp hsplit.symm |>.resolve_right (by simp)
    obtain rfl := (List.cons.inj hcons).1
    exact Assignment.not_crowds_of_fits hfits _

/-- A key of 64 bytes. -/
def overlong : Assignment where
  group := []
  key := List.replicate 64 97
  value := some [118]

/-- A value for a key of 64 bytes is accepted and not seen, and setting it again adds another setting
of the same name. -/
theorem overlong_unseen :
    (empty.put .empty overlong.group overlong.key overlong.value).1 = true ∧
      (after (.empty, .empty) [overlong]).1.hasKey overlong.group overlong.key = false ∧
      (after (.empty, .empty) [overlong]).1.text overlong.group overlong.key [] ≠ overlong.kept ∧
      (after (.empty, .empty) [overlong, overlong]).1.size = 2 ∧
      ¬ (after (.empty, .empty) [overlong, overlong]).1.Unambiguous := by
  refine ⟨by decide, by decide, by decide, by decide, ?_⟩
  rw [unambiguous_iff]
  decide

end Settings

end Intake
