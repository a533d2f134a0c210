/-
# Settings as a dictionary

A `ConfigStore` is a list that is searched from its front.  Seen from outside it is a finite map
from names, without regard to case, to values: a `Dictionary`, which takes at most 64 names and cuts
values to 255 bytes.  **As long as the names that are set have at most 63 bytes the two cannot be
told apart** (`replies_as_dictionary`): whatever is set and asked for in between, with names of any
length, the replies are the same.

The map of a table has the first value of each name (`Settings.dictionary`).  A call whose names fit
inserts its value there (`dictionary_put`); the names of a table differ, so that the map has as many
as the table has settings.
-/
import Mathlib
import Intake.Proofs.Config.Naming

namespace Intake

/-! ## 1. Dictionaries -/

/-- A finite map from names to values. -/
abbrev Dictionary := Finmap fun _ : Name => Bytes

namespace Dictionary

/-- How many names there are. -/
def size (m : Dictionary) : Nat := m.keys.card

/-- Gives a name its value; a new name is turned away when there are 64. -/
def assign (m : Dictionary) (a : Assignment) : Bool × Dictionary :=
  if a.name ∈ m ∨ m.size < settingsLimit then (true, m.insert a.name a.kept) else (false, m)

end Dictionary

/-- Something that is asked of a table of settings. -/
inductive Request where
  | assign (a : Assignment)
  | hasKey (group key : Bytes)
  | text (group key fallback : Bytes)
  | int (group key : Bytes) (fallback : Int)
  | findInt (group key : Bytes)
  | unsigned (group key : Bytes) (fallback : UInt64)
  | bool (group key : Bytes) (fallback : Bool)
  | hasGroup (group : Bytes)
  | size

/-- What comes back. -/
inductive Reply where
  | bool (b : Bool)
  | text (t : Bytes)
  | int (n : Int)
  | int? (n : Option Int)
  | unsigned (n : UInt64)
  | count (n : Nat)
  deriving DecidableEq

/-- A request that sets a value has names of at most 63 bytes. -/
def Request.Fits : Request → Prop
  | assign a => a.Fits
  | _ => True

instance : DecidablePred Request.Fits
  | .assign a => inferInstanceAs (Decidable a.Fits)
  | .hasKey .. | .text .. | .int .. | .findInt .. | .unsigned .. | .bool .. | .hasGroup ..
  | .size => isTrue trivial

/-- A table of settings and its log serve a request. -/
def Settings.serve (s : Settings × Log) : Request → Reply × (Settings × Log)
  | .assign a =>
    let r := s.1.put s.2 a.group a.key a.value
    (.bool r.1, r.2)
  | .hasKey group key => (.bool (s.1.hasKey group key), s)
  | .text group key fallback => (.text (s.1.text group key fallback), s)
  | .int group key fallback => (.int (s.1.int group key fallback), s)
  | .findInt group key => (.int? (s.1.findInt group key), s)
  | .unsigned group key fallback => (.unsigned (s.1.unsigned group key fallback), s)
  | .bool group key fallback => (.bool (s.1.bool group key fallback), s)
  | .hasGroup group => (.bool (s.1.hasGroup group), s)
  | .size => (.count s.1.size, s)

/-- A dictionary serves a request. -/
def Dictionary.serve (m : Dictionary) : Request → Reply × Dictionary
  | .assign a => (.bool (m.assign a).1, (m.assign a).2)
  | .hasKey group key => (.bool (.of group key ∈ m), m)
  | .text group key fallback => (.text ((m.lookup (.of group key)).getD fallback), m)
  | .int group key fallback =>
    (.int (((m.lookup (.of group key)).bind parseSigned |>.filter Settings.isInt32).getD fallback), m)
  | .findInt group key =>
    (.int? ((m.lookup (.of group key)).bind parseSigned |>.filter Settings.isInt32), m)
  | .unsigned group key fallback =>
    (.unsigned (((m.lookup (.of group key)).bind parseUnsigned).getD fallback), m)
  | .bool group key fallback =>
    (.bool ((m.lookup (.of group key)).elim fallback fun t =>
      Ascii.fold t ∈ Settings.yesWords), m)
  | .hasGroup group => (.bool (∃ n ∈ m.keys, n.1 = Ascii.fold group), m)
  | .size => (.count m.size, m)

/-- The replies to a row of requests, and what there is afterwards. -/
def replies {σ : Type} (serve : σ → Request → Reply × σ) (s : σ) : List Request → List Reply × σ
  | [] => ([], s)
  | r :: rest =>
    let served := serve s r
    let more := replies serve served.2 rest
    (served.1 :: more.1, more.2)

namespace Settings

variable {s s' : Settings} {log log' : Log} {a : Assignment} {group key : Bytes}

/-! ## 2. The dictionary of a table -/

/-- The first value of each name. -/
def dictionary (s : Settings) : Dictionary := (bindings s.entries).toFinmap

theorem lookup_dictionary (s : Settings) (n : Name) :
    s.dictionary.lookup n = (bindings s.entries).dlookup n :=
  Finmap.dlookup_list_toFinmap ..

theorem mem_dictionary {n : Name} : n ∈ s.dictionary ↔ n ∈ s.names := by
  rw [dictionary, Finmap.mem_list_toFinmap]
  simp [bindings, names]

theorem mem_keys_dictionary {n : Name} : n ∈ s.dictionary.keys ↔ n ∈ s.names := by
  rw [Finmap.mem_keys, mem_dictionary]

theorem size_dictionary (hnodup : s.names.Nodup) : s.dictionary.size = s.size := by
  have hkeys : s.dictionary.keys = s.names.toFinset := by
    ext n
    rw [mem_keys_dictionary, List.mem_toFinset]
  rw [Dictionary.size, hkeys, List.toFinset_card_of_nodup hnodup, length_names]

/-- **A call whose names fit** does to the dictionary what it does to the table. -/
theorem dictionary_put (hnodup : s.names.Nodup) (hfits : a.Fits) (log : Log) :
    s.dictionary.assign a = ((s.put log a.group a.key a.value).1,
      (s.put log a.group a.key a.value).2.1.dictionary) := by
  have hroom : s.dictionary.size < settingsLimit ↔ s.size ≠ settingsLimit := by
    rw [size_dictionary hnodup]
    have hle : s.size ≤ settingsLimit := s.length_le
    omega
  unfold Dictionary.assign
  by_cases haccepted : (s.put log a.group a.key a.value).1 = true
  · have htaken : a.name ∈ s.dictionary ∨ s.dictionary.size < settingsLimit := by
      rw [mem_dictionary, hroom]
      by_contra hneither
      obtain ⟨hnew, hfull⟩ := not_or.mp hneither
      have hrefused := (put_fst_eq_false_iff s log a).mpr ⟨hnew, not_not.mp hfull⟩
      rw [haccepted] at hrefused
      cases hrefused
    rw [if_pos htaken, haccepted]
    refine congrArg (Prod.mk true) (Finmap.ext_lookup fun n => ?_)
    rw [lookup_dictionary, dlookup_put hfits haccepted]
    by_cases hn : n = a.name
    · rw [if_pos hn, hn, Finmap.lookup_insert]
    · rw [if_neg hn, Finmap.lookup_insert_of_ne _ hn, lookup_dictionary]
  · have hrefused := Bool.eq_false_iff.mpr haccepted
    obtain ⟨hnew, hfull⟩ := (put_fst_eq_false_iff s log a).mp hrefused
    have hturned : ¬ (a.name ∈ s.dictionary ∨ s.dictionary.size < settingsLimit) := by
      rw [mem_dictionary, hroom]
      exact not_or.mpr ⟨hnew, not_not.mpr hfull⟩
    rw [if_neg hturned, hrefused, put_refused hrefused]

/-! ## 3. Requests -/

/-- A table that stands for a dictionary: its names differ, and the bindings are the same. -/
structure Represents (s : Settings) (m : Dictionary) : Prop where
  names : s.names.Nodup
  dictionary : s.dictionary = m

section Represents

variable {m : Dictionary}

theorem Represents.value? (h : s.Represents m) (group key : Bytes) :
    s.value? group key = m.lookup (.of group key) := by
  rw [← h.dictionary, lookup_dictionary, value?_eq_dlookup]

theorem Represents.hasKey (h : s.Represents m) (group key : Bytes) :
    s.hasKey group key = decide (Name.of group key ∈ m) := by
  rw [Bool.eq_iff_iff, hasKey_iff, decide_eq_true_iff, ← h.dictionary, mem_dictionary]

theorem Represents.findInt (h : s.Represents m) (group key : Bytes) :
    s.findInt group key
      = ((m.lookup (.of group key)).bind parseSigned).filter Settings.isInt32 := by
  rw [Settings.findInt, h.value?]
  cases m.lookup (.of group key) <;> rfl

theorem any_yesWords (t : Bytes) :
    yesWords.any (Ascii.sameText t) = decide (Ascii.fold t ∈ yesWords) := by
  have hsmall : ∀ w ∈ yesWords, Ascii.fold w = w := by decide
  rw [Bool.eq_iff_iff, List.any_eq_true, decide_eq_true_iff]
  constructor
  · rintro ⟨w, hw, hsame⟩
    rw [Ascii.sameText_iff, hsmall w hw] at hsame
    exact hsame ▸ hw
  · intro hw
    exact ⟨_, hw, (Ascii.sameText_iff ..).mpr (hsmall _ hw).symm⟩

theorem Represents.hasGroup (h : s.Represents m) (group : Bytes) :
    s.hasGroup group = decide (∃ n ∈ m.keys, n.1 = Ascii.fold group) := by
  rw [Bool.eq_iff_iff, Settings.hasGroup, List.any_eq_true, decide_eq_true_iff, ← h.dictionary]
  simp only [mem_keys_dictionary, Settings.names, List.mem_map, Ascii.sameText_iff]
  constructor
  · rintro ⟨e, he, hgroup⟩
    exact ⟨e.name, ⟨e, he, rfl⟩, hgroup⟩
  · rintro ⟨-, ⟨e, he, rfl⟩, hgroup⟩
    exact ⟨e, he, hgroup⟩

theorem Represents.size (h : s.Represents m) : s.size = m.size := by
  rw [← h.dictionary, size_dictionary h.names]

theorem Represents.put (h : s.Represents m) (hfits : a.Fits) (log : Log) :
    (s.put log a.group a.key a.value).1 = (m.assign a).1 ∧
      (s.put log a.group a.key a.value).2.1.Represents (m.assign a).2 := by
  have hput := dictionary_put h.names hfits log
  rw [h.dictionary] at hput
  rw [hput]
  exact ⟨rfl, nodup_names_put.mpr ⟨h.names, a.not_crowds_of_fits hfits s⟩, rfl⟩

/-- **Every request is served alike.** -/
theorem Represents.serve (h : s.Represents m) {r : Request} (hfits : r.Fits) (log : Log) :
    (Settings.serve (s, log) r).1 = (m.serve r).1 ∧
      (Settings.serve (s, log) r).2.1.Represents (m.serve r).2 := by
  cases r with
  | assign a =>
    obtain ⟨hreply, hrest⟩ := h.put hfits log
    exact ⟨congrArg Reply.bool hreply, hrest⟩
  | hasKey group key => exact ⟨congrArg Reply.bool (h.hasKey group key), h⟩
  | text group key fallback =>
    refine ⟨congrArg Reply.text ?_, h⟩
    exact congrArg (·.getD fallback) (h.value? group key)
  | int group key fallback =>
    refine ⟨congrArg Reply.int ?_, h⟩
    exact congrArg (·.getD fallback) (h.findInt group key)
  | findInt group key => exact ⟨congrArg Reply.int? (h.findInt group key), h⟩
  | unsigned group key fallback =>
    refine ⟨congrArg Reply.unsigned ?_, h⟩
    show Settings.unsigned s group key fallback = _
    rw [Settings.unsigned, h.value?]
    cases m.lookup (.of group key) <;> rfl
  | bool group key fallback =>
    refine ⟨congrArg Reply.bool ?_, h⟩
    show Settings.bool s group key fallback = _
    rw [Settings.bool, h.value?]
    cases m.lookup (.of group key) with
    | none => rfl
    | some t => exact any_yesWords t
  | hasGroup group => exact ⟨congrArg Reply.bool (h.hasGroup group), h⟩
  | size => exact ⟨congrArg Reply.count h.size, h⟩

/-- **A row of requests is served alike.** -/
theorem Represents.serve_row (h : s.Represents m) (log : Log) {requests : List Request}
    (hfits : ∀ r ∈ requests, r.Fits) :
    (replies Settings.serve (s, log) requests).1 = (replies Dictionary.serve m requests).1 ∧
      (replies Settings.serve (s, log) requests).2.1.Represents
        (replies Dictionary.serve m requests).2 := by
  induction requests generalizing s m log with
  | nil => exact ⟨rfl, h⟩
  | cons r rest ih =>
    obtain ⟨hreply, hserved⟩ := h.serve (hfits r (by simp)) log
    obtain ⟨hmore, hrest⟩ := ih hserved (Settings.serve (s, log) r).2.2
      fun r' hr' => hfits r' (List.mem_cons_of_mem _ hr')
    exact ⟨congrArg₂ List.cons hreply hmore, hrest⟩

end Represents

theorem represents_empty : Settings.empty.Represents ∅ := ⟨List.nodup_nil, rfl⟩

/-! ## 4. The two cannot be told apart -/

/-- **A table of settings answers as a dictionary does**, as long as the names that are set fit.  At
any time a call for a name that fits is turned away exactly when the name is new and there are 64,
and then it changes nothing; otherwise it gives this name its value and no other.

Names that fit are kept as they are, so the kept names differ, and the first setting with a name is
the only one. So the table represents a map (`Represents`), which each request reads or changes on
both sides alike. -/
theorem replies_as_dictionary (log : Log) {requests : List Request}
    (hfits : ∀ r ∈ requests, r.Fits) :
    (replies Settings.serve (empty, log) requests).1 = (replies Dictionary.serve ∅ requests).1 ∧
    ∀ s log' m, (replies Settings.serve (empty, log) requests).2 = (s, log') →
      (replies Dictionary.serve ∅ requests).2 = m →
      s.size = m.size ∧ (∀ group key, s.value? group key = m.lookup (.of group key)) ∧
      ∀ a : Assignment, a.Fits →
        ((s.put log' a.group a.key a.value).1 = false ↔ m.size = 64 ∧ a.name ∉ m) ∧
        ((s.put log' a.group a.key a.value).1 = false →
          (s.put log' a.group a.key a.value).2.1 = s) ∧
        (a.name ∈ m → (s.put log' a.group a.key a.value).1 = true) ∧
        ((s.put log' a.group a.key a.value).1 = true → ∀ group key,
          (s.put log' a.group a.key a.value).2.1.value? group key
            = if Name.of group key = a.name then some a.kept else s.value? group key) := by
  obtain ⟨hreplies, hrest⟩ := represents_empty.serve_row log hfits
  refine ⟨hreplies, ?_⟩
  rintro s log' m hs rfl
  rw [hs] at hrest
  refine ⟨hrest.size, hrest.value?, fun a ha => ?_⟩
  have hrefused := put_fst_eq_false_iff s log' a
  have hmem : a.name ∈ s.names ↔ a.name ∈ (replies Dictionary.serve ∅ requests).2 := by
    rw [← mem_dictionary, hrest.dictionary]
  rw [hmem, hrest.size] at hrefused
  refine ⟨hrefused.trans and_comm, put_refused, fun hold => ?_, fun haccepted group key => ?_⟩
  · by_contra hno
    exact (hrefused.mp (Bool.eq_false_iff.mpr hno)).1 hold
  · rw [value?_eq_dlookup, dlookup_put ha haccepted, ← value?_eq_dlookup]

/-- Two calls for one name, in different case, and what can be asked then. -/
def recasedRequests : List Request :=
  [.assign
      { group := Bytes.ofAscii "Reader", key := Bytes.ofAscii "Workers"
        value := some (Bytes.ofAscii "12") },
    .int (Bytes.ofAscii "reader") (Bytes.ofAscii "WORKERS") 4,
    .assign
      { group := Bytes.ofAscii "READER", key := Bytes.ofAscii "workers"
        value := some (Bytes.ofAscii "Yes") },
    .assign { group := Bytes.ofAscii "Log", key := Bytes.ofAscii "File", value := none },
    .bool (Bytes.ofAscii "reader") (Bytes.ofAscii "workers") false,
    .findInt (Bytes.ofAscii "reader") (Bytes.ofAscii "workers"),
    .hasKey [] (List.replicate 64 97), .hasGroup (Bytes.ofAscii "rEADER"), .size]

theorem replies_as_dictionary_recased :
    (∀ r ∈ recasedRequests, r.Fits) ∧
      (replies Dictionary.serve ∅ recasedRequests).1
        = [.bool true, .int 12, .bool true, .bool true, .bool true, .int? none, .bool false,
          .bool true, .count 2] := by
  have hfits : ∀ r ∈ recasedRequests, r.Fits := by decide
  refine ⟨hfits, ?_⟩
  rw [← (replies_as_dictionary .empty hfits).1]
  decide +kernel

end Settings

end Intake
