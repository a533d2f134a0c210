/-
# Formats by extension

What `FormatForPath` answers is said here without the scan of `FileExtension`.  A path is taken
apart at its slashes (`Path.components`), and its last part at its last dot (`Path.EndsIn`).  The
scan that goes over the path once and keeps a candidate finds what is behind that dot, and nothing
if there is none (`extension?_eq_some_iff`, `extension?_eq_none_iff`): the last dot or slash of the
path decides, whichever it is, and what comes before it does not matter (`extensionFrom_behind_dot`,
`extensionFrom_behind_slash`).

No extension stands for two formats (`eq_of_namedFor`).  **So the format of a file is the one that
its path is named for, if that is among those that are supported, and the first of them otherwise**
(`follows_extension`).
-/
import Mathlib
import Intake.Config.Format

namespace Intake

/-! ## 1. Last parts and what is behind their last dots -/

namespace Path

/-- What is behind the last slash, or the whole path if there is none. -/
def lastComponent (path : Bytes) : Bytes := (components path).getLast (components_ne_nil path)

/-- The name has a dot, and behind its last one there is `ext`. -/
def EndsIn (name ext : Bytes) : Prop := (∃ stem, name = stem ++ 46 :: ext) ∧ 46 ∉ ext

variable {path b ext : Bytes}

theorem lastComponent_of_no_slash (h : 47 ∉ path) : lastComponent path = path := by
  simp only [lastComponent, components_of_no_slash h, List.getLast_singleton]

theorem lastComponent_behind_slash (a b : Bytes) :
    lastComponent (a ++ 47 :: b) = lastComponent b := by
  simp only [lastComponent, components_append_slash]
  exact List.getLast_append_of_ne_nil _ (components_ne_nil b)

theorem exists_last {α : Type} (p : α → Prop) (l : List α) :
    (∀ x ∈ l, ¬ p x) ∨ ∃ a c b, l = a ++ c :: b ∧ p c ∧ ∀ x ∈ b, ¬ p x := by
  induction l with
  | nil => exact .inl (List.forall_mem_nil _)
  | cons c l ih =>
    rcases ih with hnone | ⟨a, d, b, rfl, hd, hb⟩
    · by_cases hc : p c
      · exact .inr ⟨[], c, l, rfl, hc, hnone⟩
      · exact .inl (List.forall_mem_cons.mpr ⟨hc, hnone⟩)
    · exact .inr ⟨c :: a, d, b, rfl, hd, hb⟩

/-- **A path is a directory, which ends in a slash or is empty, and its last part.** -/
theorem exists_directory (path : Bytes) :
    (∃ dir, path = dir ++ lastComponent path ∧ (dir = [] ∨ ∃ d, dir = d ++ [47])) ∧
      47 ∉ lastComponent path := by
  rcases exists_last (· = 47) path with hnone | ⟨a, c, b, rfl, rfl, hb⟩
  · have hslash : 47 ∉ path := fun h => hnone 47 h rfl
    rw [lastComponent_of_no_slash hslash]
    exact ⟨⟨[], rfl, .inl rfl⟩, hslash⟩
  · have hslash : 47 ∉ b := fun h => hb 47 h rfl
    rw [lastComponent_behind_slash, lastComponent_of_no_slash hslash]
    exact ⟨⟨a ++ [47], by simp, .inr ⟨a, rfl⟩⟩, hslash⟩

/-! ## 2. The scan -/

theorem extensionFrom_of_plain (found : Option Bytes) (hdot : 46 ∉ path) (hslash : 47 ∉ path) :
    extensionFrom found path = found := by
  induction path with
  | nil => rfl
  | cons c r ih =>
    rw [List.mem_cons, not_or] at hdot hslash
    rw [extensionFrom, if_neg (Ne.symm hdot.1), if_neg (Ne.symm hslash.1)]
    exact ih hdot.2 hslash.2

theorem extensionFrom_append (found : Option Bytes) (a b : Bytes) :
    ∃ found', extensionFrom found (a ++ b) = extensionFrom found' b := by
  induction a generalizing found with
  | nil => exact ⟨found, rfl⟩
  | cons c r ih =>
    simp only [List.cons_append, extensionFrom]
    split_ifs <;> exact ih _

/-- The last dot makes what is behind it the candidate, whatever was found before. -/
theorem extensionFrom_behind_dot (found : Option Bytes) (a : Bytes) (hdot : 46 ∉ ext)
    (hslash : 47 ∉ ext) : extensionFrom found (a ++ 46 :: ext) = some ext := by
  obtain ⟨found', heq⟩ := extensionFrom_append found a (46 :: ext)
  rw [heq]
  exact extensionFrom_of_plain _ hdot hslash

theorem extensionFrom_behind_slash (found : Option Bytes) (a : Bytes) (hdot : 46 ∉ b)
    (hslash : 47 ∉ b) : extensionFrom found (a ++ 47 :: b) = none := by
  obtain ⟨found', heq⟩ := extensionFrom_append found a (47 :: b)
  rw [heq]
  exact extensionFrom_of_plain _ hdot hslash

theorem extension?_of_endsIn (h : EndsIn (lastComponent path) ext) : extension? path = some ext := by
  obtain ⟨⟨stem, hstem⟩, hdot⟩ := h
  obtain ⟨⟨dir, hdir, -⟩, hslash⟩ := exists_directory path
  rw [hstem] at hdir hslash
  rw [extension?, hdir, ← List.append_assoc]
  refine extensionFrom_behind_dot _ _ hdot fun hmem => hslash ?_
  exact List.mem_append_right _ (List.mem_cons_of_mem _ hmem)

theorem extension?_of_no_dot (h : 46 ∉ lastComponent path) : extension? path = none := by
  obtain ⟨⟨dir, hdir, hkind⟩, hslash⟩ := exists_directory path
  rw [extension?, hdir]
  rcases hkind with rfl | ⟨d, rfl⟩
  · exact extensionFrom_of_plain _ h hslash
  · rw [List.append_assoc]
    exact extensionFrom_behind_slash _ _ h hslash

theorem exists_endsIn (name : Bytes) : 46 ∉ name ∨ ∃ ext, EndsIn name ext := by
  rcases exists_last (· = 46) name with hnone | ⟨stem, c, ext, rfl, rfl, hext⟩
  · exact .inl fun h => hnone 46 h rfl
  · exact .inr ⟨ext, ⟨stem, rfl⟩, fun h => hext 46 h rfl⟩

/-- **The scan finds what is behind the last dot of the last part.** -/
theorem extension?_eq_some_iff : extension? path = some ext ↔ EndsIn (lastComponent path) ext := by
  refine ⟨fun h => ?_, extension?_of_endsIn⟩
  rcases exists_endsIn (lastComponent path) with hdot | ⟨ext', hends⟩
  · rw [extension?_of_no_dot hdot] at h
    cases h
  · rw [extension?_of_endsIn hends] at h
    exact Option.some.inj h ▸ hends

/-- **It finds nothing exactly if the last part has no dot.** -/
theorem extension?_eq_none_iff : extension? path = none ↔ 46 ∉ lastComponent path := by
  refine ⟨fun h hmem => ?_, extension?_of_no_dot⟩
  rcases exists_endsIn (lastComponent path) with hdot | ⟨ext, hends⟩
  · exact hdot hmem
  · rw [extension?_of_endsIn hends] at h
    cases h

end Path

/-! ## 3. Formats -/

namespace Config.Format

/-- The path has an extension that stands for the format, in whatever case. -/
def NamedFor (f : Format) (path : Bytes) : Prop :=
  ∃ ext, Path.EndsIn (Path.lastComponent path) ext ∧
    ∃ e ∈ f.extensions, Ascii.fold ext = Ascii.fold e

variable {f g first : Format} {others : List Format} {path path' : Bytes}

theorem matchesExtension_iff (f : Format) (ext : Bytes) :
    f.matchesExtension ext = true ↔ ∃ e ∈ f.extensions, Ascii.fold ext = Ascii.fold e := by
  simp only [matchesExtension, List.any_eq_true, Ascii.sameText_iff]

theorem namedFor_iff :
    f.NamedFor path ↔ ∃ ext, Path.extension? path = some ext ∧ f.matchesExtension ext = true := by
  simp only [NamedFor, Path.extension?_eq_some_iff, matchesExtension_iff]

theorem eq_of_extensions : ∀ {f g : Format}, ∀ e ∈ f.extensions, ∀ e' ∈ g.extensions,
    Ascii.fold e = Ascii.fold e' → f = g := by
  rintro (_ | _ | _) (_ | _ | _) <;> decide

theorem eq_of_namedFor (hf : f.NamedFor path) (hg : g.NamedFor path) : f = g := by
  obtain ⟨ext, hext, e, he, hsame⟩ := hf
  obtain ⟨ext', hext', e', he', hsame'⟩ := hg
  obtain rfl : ext = ext' := by
    have h := Path.extension?_of_endsIn hext
    rw [Path.extension?_of_endsIn hext'] at h
    exact (Option.some.inj h).symm
  exact eq_of_extensions e he e' he' (hsame.symm.trans hsame')

theorem ofPath_of_namedFor (hmem : f ∈ first :: others) (h : f.NamedFor path) :
    ofPath first others path = f := by
  obtain ⟨ext, hext, hmatches⟩ := namedFor_iff.mp h
  obtain ⟨g, hg⟩ := Option.isSome_iff_exists.mp
    (List.find?_isSome.mpr (⟨f, hmem, hmatches⟩ : ∃ g ∈ first :: others, g.matchesExtension ext))
  have hnamed : g.NamedFor path :=
    namedFor_iff.mpr ⟨ext, hext, List.find?_some (p := fun g : Format => g.matchesExtension ext) hg⟩
  simp only [ofPath, hext, hg, Option.getD_some]
  exact eq_of_namedFor hnamed h

theorem ofPath_of_not_namedFor (h : ∀ f ∈ first :: others, ¬ f.NamedFor path) :
    ofPath first others path = first := by
  unfold ofPath
  split
  · rfl
  · rename_i ext hext
    have hnone : ((first :: others).find? fun f => f.matchesExtension ext) = none := by
      refine List.find?_eq_none.mpr fun f hf hmatches => ?_
      exact h f hf (namedFor_iff.mpr ⟨ext, hext, hmatches⟩)
    rw [hnone]
    rfl

/-- **Nothing of a path matters but its extension.** -/
theorem ofPath_congr (h : Path.extension? path' = Path.extension? path) :
    ofPath first others path' = ofPath first others path := by
  simp only [ofPath, h]

/-- **The format follows from the extension.**  It is the supported format that the path is named for,
and the first one if there is none, as for a path whose last part has no dot.  Paths with the same
extension have the same format, and what comes before the last slash does not matter; if the supported
formats come in another order, the answer changes for no path that is named for one of them.

The answer depends on the path through its extension alone, and no extension stands for two formats;
so the first supported format that has it is the only one, wherever it stands. -/
theorem follows_extension (first : Format) (others : List Format) (path : Bytes) :
    (∀ f ∈ first :: others, f.NamedFor path → ofPath first others path = f) ∧
    ((∀ f ∈ first :: others, ¬ f.NamedFor path) → ofPath first others path = first) ∧
    (46 ∉ Path.lastComponent path → ofPath first others path = first) ∧
    (∀ path' ext, Path.EndsIn (Path.lastComponent path) ext →
      Path.EndsIn (Path.lastComponent path') ext →
        ofPath first others path' = ofPath first others path) ∧
    (∀ dir, ofPath first others (dir ++ 47 :: path) = ofPath first others path) ∧
    ∀ first' others', (first' :: others').Perm (first :: others) →
      ofPath first' others' path ≠ ofPath first others path →
        ∀ f ∈ first :: others, ¬ f.NamedFor path := by
  refine ⟨fun f hmem h => ofPath_of_namedFor hmem h, ofPath_of_not_namedFor, ?_, ?_, ?_, ?_⟩
  · intro hdot
    refine ofPath_of_not_namedFor fun f _ hnamed => ?_
    obtain ⟨ext, hext, -⟩ := namedFor_iff.mp hnamed
    rw [Path.extension?_eq_none_iff.mpr hdot] at hext
    cases hext
  · intro path' ext hext hext'
    exact ofPath_congr ((Path.extension?_of_endsIn hext').trans (Path.extension?_of_endsIn hext).symm)
  · intro dir
    refine ofPath_congr ?_
    cases hext : Path.extension? path with
    | none =>
      rw [Path.extension?_eq_none_iff] at hext ⊢
      rwa [Path.lastComponent_behind_slash]
    | some ext =>
      rw [Path.extension?_eq_some_iff] at hext ⊢
      rwa [Path.lastComponent_behind_slash]
  · intro first' others' hperm hne f hmem hnamed
    refine hne ?_
    rw [ofPath_of_namedFor hmem hnamed, ofPath_of_namedFor (hperm.mem_iff.mpr hmem) hnamed]

/-- A path with dots in its directory and in its name. -/
def nestedPath : Bytes := "conf.d/site.ini.YML"

/-- Only its last dot counts, and so do directories in front of it, other orders and fewer formats. -/
theorem nestedPath_is_yaml :
    yaml.NamedFor nestedPath ∧ ofPath json [ini, yaml] nestedPath = yaml ∧
      ofPath json [ini, yaml] ("etc.json/" ++ nestedPath) = yaml ∧
      ofPath yaml [json, ini] nestedPath = yaml ∧
      ofPath json [ini] nestedPath = json := by
  have hnamed : yaml.NamedFor nestedPath := namedFor_iff.mpr ⟨"YML", by decide, by decide⟩
  obtain ⟨hyaml, -, -, -, hdirectory, horder⟩ := follows_extension json [ini, yaml] nestedPath
  obtain ⟨-, hnone, -⟩ := follows_extension json [ini] nestedPath
  have hfound : ofPath json [ini, yaml] nestedPath = yaml := hyaml yaml (by decide) hnamed
  refine ⟨hnamed, hfound, ?_, ?_, ?_⟩
  · exact (hdirectory "etc.json").trans hfound
  · by_contra hother
    exact horder yaml [json, ini] (by decide) (by rwa [hfound]) yaml (by decide) hnamed
  · refine hnone fun f hf hother => ?_
    rw [eq_of_namedFor hother hnamed] at hf
    exact absurd hf (by decide)

end Config.Format

end Intake
