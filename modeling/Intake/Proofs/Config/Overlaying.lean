/-
# Settings laid over options

The group `ingest` of a table of settings says something about options under six keys.  Laying it
over a base (`LoadIngestOptions`) gives the options that have, field by field, what the settings
say, and what the base has where they say nothing (`Overlaid`), or else nothing at all
(`overlays_six_keys`): that is so if one of the two counts is there and is no positive number
(`Spoils`), or if the options that come out cannot be run with.

As the result depends on nothing but the values under the six keys (`overlay_congr`), other settings
do not matter; and as everything the settings say is in the result already, laying them over it once
more changes nothing (`Overlaid.again`).

A number under one of the two other numeric keys that cannot be read counts as not being there.
-/
import Mathlib
import Intake.Config.Overlay

namespace Intake.Options

variable {s s' : Settings} {base o o' : Options} {key : Bytes} {current n : UInt32}

/-! ## 1. What settings say -/

/-- The keys that options are read from. -/
def keys : List Bytes :=
  [workersKey, thresholdKey, tempDirKey, modelPathKey, maxMetadataKey, timeoutKey]

/-- The largest number that is taken for a count. -/
def largestCount : Int := 2147483647

/-- Something is under the key, and it is no positive number of 31 bits. -/
def Spoils (s : Settings) (key : Bytes) : Prop :=
  s.hasKey group key = true ∧ ¬ ∃ n, s.findInt group key = some n ∧ 1 ≤ n ∧ n ≤ largestCount

/-- A count is the number under the key, or stays as it is if there is nothing. -/
def Counts (s : Settings) (key : Bytes) (current n : UInt32) : Prop :=
  if s.hasKey group key = true then s.findInt group key = some (n.toNat : Int) else n = current

instance (s : Settings) (key : Bytes) (current n : UInt32) : Decidable (Counts s key current n) :=
  inferInstanceAs (Decidable
    (if s.hasKey group key = true then s.findInt group key = some (n.toNat : Int) else n = current))

/-- The options have what the settings say, and what the base has where they say nothing. -/
structure Overlaid (s : Settings) (base o : Options) : Prop where
  workerCount : Counts s workersKey base.workerCount o.workerCount
  thresholdMb : Counts s thresholdKey base.thresholdMb o.thresholdMb
  thresholdExact : o.thresholdExact = if s.hasKey group thresholdKey then 0 else base.thresholdExact
  tempDir : o.tempDir = (s.value? group tempDirKey).getD base.tempDir
  modelPath : o.modelPath = (s.value? group modelPathKey).getD base.modelPath
  maxMetadata : o.maxMetadata
    = ((s.value? group maxMetadataKey).bind parseUnsigned).getD base.maxMetadata
  shutdownTimeoutMs : o.shutdownTimeoutMs
    = ((s.value? group timeoutKey).bind parseUnsigned).getD base.shutdownTimeoutMs

/-! ## 2. Values and keys -/

theorem hasKey_eq_isSome (s : Settings) (key : Bytes) :
    s.hasKey group key = (s.value? group key).isSome := by
  rw [Settings.hasKey, Settings.value?, Option.isSome_map]

theorem unsigned_eq (s : Settings) (key : Bytes) (fallback : UInt64) :
    s.unsigned group key fallback
      = ((s.value? group key).bind parseUnsigned).getD fallback := by
  unfold Settings.unsigned
  cases s.value? group key <;> rfl

theorem le_largestCount_of_findInt {m : Int} (h : s.findInt group key = some m) :
    m ≤ largestCount := by
  unfold Settings.findInt at h
  split at h
  · cases h
  · have hrange := (Option.filter_eq_some_iff.mp h).2
    simp only [Settings.isInt32, Bool.and_eq_true, decide_eq_true_eq] at hrange
    exact hrange.2

theorem Counts.unique {n' : UInt32} (h : Counts s key current n) (h' : Counts s key current n') :
    n' = n := by
  unfold Counts at h h'
  split at h
  · rename_i hkey
    rw [if_pos hkey, h] at h'
    exact UInt32.toNat_inj.mp (Int.ofNat.inj (Option.some.inj h')).symm
  · rename_i hkey
    rw [if_neg hkey] at h'
    exact h'.trans h.symm

theorem positive_of_spoils (h : Spoils s key) : ∃ e, positive s key current = .error e := by
  obtain ⟨hkey, hno⟩ := h
  rw [positive, if_pos hkey]
  cases hfound : s.findInt group key with
  | none => exact ⟨_, rfl⟩
  | some m =>
    have hneg : ¬ 0 < m := fun hpos =>
      hno ⟨m, hfound, hpos, le_largestCount_of_findInt hfound⟩
    exact ⟨_, if_neg hneg⟩

theorem positive_of_not_spoils (h : ¬ Spoils s key) (current : UInt32) :
    ∃ n, positive s key current = .ok n ∧ Counts s key current n := by
  unfold positive Counts
  by_cases hkey : s.hasKey group key = true
  · rw [if_pos hkey]
    obtain ⟨m, hfound, hpos, hle⟩ := not_not.mp fun hno => h ⟨hkey, hno⟩
    have hlt : m.toNat < UInt32.size := by
      unfold largestCount at hle
      have hsize : UInt32.size = 4294967296 := rfl
      omega
    refine ⟨UInt32.ofNat m.toNat, ?_, ?_⟩
    · rw [hfound]
      exact if_pos hpos
    · rw [if_pos hkey, hfound, UInt32.toNat_ofNat_of_lt' hlt]
      exact congrArg some (Int.toNat_of_nonneg (by omega)).symm
  · exact ⟨current, if_neg hkey, by rw [if_neg hkey]⟩

/-- **A count is taken** from the settings unless they spoil it. -/
theorem positive_ok_iff :
    positive s key current = .ok n ↔ Counts s key current n ∧ ¬ Spoils s key := by
  by_cases hspoils : Spoils s key
  · obtain ⟨e, he⟩ : ∃ e, positive s key current = .error e := positive_of_spoils hspoils
    simp [he, hspoils]
  · obtain ⟨m, hm, hcounts⟩ := positive_of_not_spoils hspoils current
    rw [hm, Except.ok.injEq]
    constructor
    · rintro rfl
      exact ⟨hcounts, hspoils⟩
    · rintro ⟨hcounts', -⟩
      exact hcounts'.unique hcounts

/-! ## 3. Laying settings over a base -/

theorem overlaid_merged {workers thresholdMb : UInt32}
    (hworkers : Counts s workersKey base.workerCount workers)
    (hthreshold : Counts s thresholdKey base.thresholdMb thresholdMb) :
    Overlaid s base (merged s base workers thresholdMb) :=
  ⟨hworkers, hthreshold, rfl, rfl, rfl, unsigned_eq .., unsigned_eq ..⟩

theorem Overlaid.unique (h : Overlaid s base o) (h' : Overlaid s base o') : o' = o := by
  cases o
  cases o'
  obtain ⟨hw, ht, hx, hd, hm, hl, hg⟩ := h
  obtain ⟨hw', ht', hx', hd', hm', hl', hg'⟩ := h'
  simp only at *
  rw [hw.unique hw', ht.unique ht', hx, hx', hd, hd', hm, hm', hl, hl', hg, hg']

theorem Overlaid.not_spoils (h : Overlaid s base o) (hvalid : o.Valid) :
    ¬ Spoils s workersKey ∧ ¬ Spoils s thresholdKey := by
  obtain ⟨hsome, hthreshold, -⟩ := (valid_iff o).mp hvalid
  have hgood : ∀ {key : Bytes} {current n : UInt32}, Counts s key current n →
      (s.hasKey group key = true → n ≠ 0) → ¬ Spoils s key := by
    rintro key current n hcounts hne ⟨hkey, hno⟩
    rw [Counts, if_pos hkey] at hcounts
    refine hno ⟨_, hcounts, ?_, le_largestCount_of_findInt hcounts⟩
    have hpos : n.toNat ≠ 0 := fun hzero => hne hkey (UInt32.toNat_inj.mp hzero)
    omega
  refine ⟨hgood h.workerCount fun _ => hsome, hgood h.thresholdMb ?_⟩
  -- with a threshold in megabytes there is no exact one, so that a zero would be the threshold
  rintro hkey hzero
  apply hthreshold
  have hexact := h.thresholdExact
  rw [if_pos hkey] at hexact
  rw [threshold, hexact, hzero]
  rfl

/-- **What comes out** has what the settings say and can be run with, and it does come out. -/
theorem overlay_ok_iff : overlay s base = .ok o ↔ Overlaid s base o ∧ o.Valid := by
  constructor
  · intro h
    refine ⟨?_, valid_of_overlay h⟩
    unfold overlay at h
    cases hworkers : positive s workersKey base.workerCount with
    | error e => simp [hworkers] at h
    | ok workers =>
      cases hthreshold : positive s thresholdKey base.thresholdMb with
      | error e => simp [hworkers, hthreshold] at h
      | ok thresholdMb =>
        simp only [hworkers, hthreshold] at h
        split at h
        · cases h
        · obtain rfl := Except.ok.inj h
          exact overlaid_merged (positive_ok_iff.mp hworkers).1 (positive_ok_iff.mp hthreshold).1
  · rintro ⟨h, hvalid⟩
    obtain ⟨hnot, hnot'⟩ := h.not_spoils hvalid
    have hworkers := positive_ok_iff.mpr ⟨h.workerCount, hnot⟩
    have hthreshold := positive_ok_iff.mpr ⟨h.thresholdMb, hnot'⟩
    have hsame := h.unique (overlaid_merged h.workerCount h.thresholdMb)
    have hfault : o.fault? = none := hvalid
    simp only [overlay, hworkers, hthreshold, hsame, hfault]

theorem not_valid_iff (o : Options) :
    ¬ o.Valid ↔ o.workerCount = 0 ∨ o.threshold = 0 ∨ o.tempDir = [] := by
  rw [valid_iff]
  tauto

/-- **When nothing comes out**: a count is spoiled, or the options cannot be run with. -/
theorem overlay_error_iff : (∃ e, overlay s base = .error e) ↔
    Spoils s workersKey ∨ Spoils s thresholdKey ∨ ∃ o, Overlaid s base o ∧ ¬ o.Valid := by
  constructor
  · rintro ⟨e, he⟩
    by_cases hworkers : Spoils s workersKey
    · exact Or.inl hworkers
    by_cases hthreshold : Spoils s thresholdKey
    · exact Or.inr (Or.inl hthreshold)
    obtain ⟨workers, -, hw⟩ := positive_of_not_spoils hworkers base.workerCount
    obtain ⟨thresholdMb, -, ht⟩ := positive_of_not_spoils hthreshold base.thresholdMb
    refine Or.inr (Or.inr ⟨_, overlaid_merged hw ht, ?_⟩)
    intro hvalid
    rw [overlay_ok_iff.mpr ⟨overlaid_merged hw ht, hvalid⟩] at he
    cases he
  · intro h
    cases hoverlay : overlay s base with
    | error e => exact ⟨e, rfl⟩
    | ok o =>
      exfalso
      obtain ⟨hover, hvalid⟩ := overlay_ok_iff.mp hoverlay
      obtain ⟨hworkers, hthreshold⟩ := hover.not_spoils hvalid
      rcases h with h | h | ⟨o', hover', hno⟩
      · exact hworkers h
      · exact hthreshold h
      · exact hno (hover.unique hover' ▸ hvalid)

/-! ## 4. Other settings, and the same ones again -/

/-- **Nothing but the values under the six keys matters**, for what comes out and for what is
reported. -/
theorem overlay_congr (h : ∀ key ∈ keys, s'.value? group key = s.value? group key) (base : Options) :
    overlay s' base = overlay s base := by
  have hkey : ∀ key ∈ keys, s'.hasKey group key = s.hasKey group key := by
    intro key hmem
    rw [hasKey_eq_isSome, hasKey_eq_isSome, h key hmem]
  have hpositive : ∀ key ∈ keys, ∀ current, positive s' key current = positive s key current := by
    intro key hmem current
    simp only [positive, hkey key hmem, Settings.findInt, Settings.text, h key hmem]
  have hmerged : ∀ workers thresholdMb,
      merged s' base workers thresholdMb = merged s base workers thresholdMb := by
    intro workers thresholdMb
    simp only [merged, Settings.text, Settings.unsigned,
      hkey thresholdKey (by simp [keys]), h tempDirKey (by simp [keys]),
      h modelPathKey (by simp [keys]), h maxMetadataKey (by simp [keys]),
      h timeoutKey (by simp [keys])]
  simp only [overlay, hpositive workersKey (by simp [keys]),
    hpositive thresholdKey (by simp [keys]), hmerged]

theorem Counts.again (h : Counts s key current n) : Counts s key n n := by
  unfold Counts at h ⊢
  split
  · rename_i hkey
    rwa [if_pos hkey] at h
  · rfl

/-- **What the settings say is in the result already.** -/
theorem Overlaid.again (h : Overlaid s base o) : Overlaid s o o := by
  have hsaid : ∀ {α : Type} {x y : α} (v : Option α), x = v.getD y → x = v.getD x := by
    rintro α x y (_ | v) hx
    · rfl
    · exact hx
  refine ⟨h.workerCount.again, h.thresholdMb.again, ?_, hsaid _ h.tempDir, hsaid _ h.modelPath,
    hsaid _ h.maxMetadata, hsaid _ h.shutdownTimeoutMs⟩
  split
  · rename_i hkey
    rw [h.thresholdExact, if_pos hkey]
  · rfl

/-! ## 5. Reading options -/

theorem load_ok_iff (log : Log) : (load s base log).1 = .ok o ↔ overlay s base = .ok o := by
  unfold load
  cases overlay s base <;> simp

theorem load_error_iff (log : Log) :
    (load s base log).1 = .error .invalidValue ↔ ∃ e, overlay s base = .error e := by
  unfold load
  cases overlay s base <;> simp

/-- **Settings are laid over a base**: either one of the two counts is there and is no positive
number of 31 bits, or the options with what the settings say have no workers, no threshold or no
directory for temporary files, and then they are turned away; or else those are the options that
come out, and they can be run with.  Settings that agree under the six keys give the same, to the
letter of the log, and what came out comes out again when the settings are laid over it.

Every key is read on its own and fills one field, and fails or does not without regard to the
others. A field that a key has filled is filled with the same the second time, and the others are
taken from what came out. -/
theorem overlays_six_keys (s : Settings) (base : Options) (log : Log) :
    ((load s base log).1 = .error .invalidValue ↔
      Spoils s workersKey ∨ Spoils s thresholdKey ∨ ∃ o, Overlaid s base o ∧
        (o.workerCount = 0 ∨ o.threshold = 0 ∨ o.tempDir = [])) ∧
    ((load s base log).1 ≠ .error .invalidValue →
      ∃ o, (load s base log).1 = .ok o ∧ Overlaid s base o ∧ (validate o log).1 = .ok ()) ∧
    (∀ s', (∀ key ∈ keys, s'.value? group key = s.value? group key) →
      load s' base log = load s base log) ∧
    ∀ o, (load s base log).1 = .ok o → ∀ log', load s o log' = (.ok o, log') := by
  have hok : ∀ {o}, (load s base log).1 = .ok o → Overlaid s base o ∧ o.Valid := fun h =>
    overlay_ok_iff.mp ((load_ok_iff log).mp h)
  refine ⟨?_, ?_, ?_, ?_⟩
  · rw [load_error_iff, overlay_error_iff]
    simp only [not_valid_iff]
  · intro hne
    cases hoverlay : overlay s base with
    | error e => exact absurd ((load_error_iff log).mpr ⟨e, hoverlay⟩) hne
    | ok o =>
      have hload := (load_ok_iff log).mpr hoverlay
      obtain ⟨hover, hvalid⟩ := hok hload
      have hfault : o.fault? = none := hvalid
      exact ⟨o, hload, hover, by simp only [validate, hfault]⟩
  · intro s' hsame
    simp only [load, overlay_congr hsame]
  · intro o hload log'
    obtain ⟨hover, hvalid⟩ := hok hload
    have hagain : overlay s o = .ok o := overlay_ok_iff.mpr ⟨hover.again, hvalid⟩
    simp only [load, hagain]

/-- Settings with eight workers, a threshold of three megabytes and a metadata limit that is no
number, and, unless it is left out, a setting of another group. -/
def eightWorkers (others : List Setting) (h : others.length ≤ 60) : Settings where
  entries := [⟨.ofBytes 63 group, .ofBytes 63 workersKey, .ofBytes 255 " 8"⟩,
    ⟨.ofBytes 63 "INGEST", .ofBytes 63 thresholdKey, .ofBytes 255 "3"⟩,
    ⟨.ofBytes 63 group, .ofBytes 63 maxMetadataKey, .ofBytes 255 "12x"⟩] ++ others
  length_le := by
    rw [List.length_append, settingsLimit]
    simp only [List.length_cons, List.length_nil]
    omega

/-- Laid over options with an exact threshold, they take its place and leave the metadata limit; once
more, with another setting behind them, they change nothing. -/
theorem overlays_eight_workers :
    (load (eightWorkers [] (by decide)) { thresholdExact := 5 } .empty).1
      = .ok { workerCount := 8, thresholdMb := 3 } ∧
    load (eightWorkers [⟨.ofBytes 63 "demo", .ofBytes 63 workersKey, .ofBytes 255 "0"⟩] (by decide))
      { workerCount := 8, thresholdMb := 3 } .empty
      = (.ok { workerCount := 8, thresholdMb := 3 }, .empty) ∧
    (load (eightWorkers [] (by decide)) { tempDir := [] } .empty).1 = .error .invalidValue := by
  have hload : (load (eightWorkers [] (by decide)) { thresholdExact := 5 } .empty).1
      = .ok { workerCount := 8, thresholdMb := 3 } := by decide
  obtain ⟨-, -, -, hagain⟩ :=
    overlays_six_keys (eightWorkers [] (by decide)) { thresholdExact := 5 } .empty
  obtain ⟨-, -, hothers, -⟩ := overlays_six_keys (eightWorkers [] (by decide))
    { workerCount := 8, thresholdMb := 3 } .empty
  obtain ⟨hrefused, -⟩ := overlays_six_keys (eightWorkers [] (by decide)) { tempDir := [] } .empty
  refine ⟨hload, ?_, ?_⟩
  · rw [hothers _ (by decide)]
    exact hagain _ hload .empty
  · refine hrefused.mpr (Or.inr (Or.inr ⟨{ workerCount := 8, thresholdMb := 3, tempDir := [] }, ?_,
      Or.inr (Or.inr rfl)⟩))
    exact ⟨by decide, by decide, by decide, by decide, by decide, by decide, by decide⟩

end Intake.Options
