/-
# Settings files are read whole

`LoadFile` reads a settings file in blocks (`ReadWhole`) until it ends or more than the limit has
come.  Reading may go two blocks past the limit: one to pass it, and one that is looked at and
dropped (`lookahead`).  A failure of the file counts if it comes before that; otherwise what was
collected is the file as far as one block past the limit (`collect_eq`), which tells whether there
is too much of it.

So a text that is read is every byte of its file (`readWhole_ok_iff`), and **the parser of the
backend is handed the bytes of the file and how many they are (`Backend.handed`), or the file is
refused** (`whole_or_refused`).  Which errors a parser finds in them is its own affair.
-/
import Mathlib
import Intake.Config.File
import Intake.Proofs.Stream.Taking

namespace Intake

/-- The path leads to a file with these bytes. -/
def Disk.FileAt (d : Disk) (path b : Bytes) : Prop :=
  ∃ node, d.openPath path = .ok (.file node 0) ∧ (d.content node).bytes = b

namespace Config

variable {sofar text path b : Bytes} {file : Source} {d : Disk} {h : Host} {s : Settings}
  {first : Backend} {others : List Backend}

/-! ## 1. Blocks -/

/-- How far a settings file is looked at. -/
def lookahead : Nat := fileLimit + 2 * blockSize

theorem collect_failure {e : IoError} (hfail : file.shortfall blockSize = some e) :
    collect sofar file = .error e := by
  obtain ⟨reads, hread⟩ := gather_source blockSize blockSize file (by decide)
  rw [collect, hread, hfail]

/-- With nothing more to come, or with too much already, the next block is dropped. -/
theorem collect_done (hfail : file.shortfall blockSize = none)
    (hdone : file.rest = [] ∨ fileLimit < sofar.length) : collect sofar file = .ok sofar := by
  obtain ⟨reads, hread⟩ := gather_source blockSize blockSize file (by decide)
  have hstop : (file.rest.take blockSize).length = 0 ∨ fileLimit < sofar.length := by
    refine hdone.imp_left fun hrest => ?_
    rw [hrest, List.take_nil, List.length_nil]
  rw [collect, hread, hfail]
  exact if_pos hstop

theorem collect_block (hfail : file.shortfall blockSize = none) (hrest : file.rest ≠ [])
    (hroom : sofar.length ≤ fileLimit) :
    ∃ reads, collect sofar file
      = collect (sofar ++ file.rest.take blockSize) (file.after blockSize reads) := by
  obtain ⟨reads, hread⟩ := gather_source blockSize blockSize file (by decide)
  have hlen : 0 < file.rest.length := List.length_pos_iff.mpr hrest
  have hgo : ¬ ((file.rest.take blockSize).length = 0 ∨ fileLimit < sofar.length) := by
    rw [List.length_take, blockSize]
    omega
  refine ⟨reads, ?_⟩
  rw [collect, hread, hfail]
  exact if_neg hgo

/-- With less than a block left, the file fails, or what is left is its last block. -/
theorem collect_short (hshort : file.rest.length < blockSize) (hroom : sofar.length ≤ fileLimit) :
    collect sofar file = file.failure.elim (.ok (sofar ++ file.rest)) .error := by
  have hnow : file.shortfall blockSize = file.failure := Source.shortfall_of_short hshort
  cases hfail : file.failure with
  | some e => exact collect_failure (hnow.trans hfail)
  | none =>
    rw [Option.elim_none]
    by_cases hrest : file.rest = []
    · rw [hrest, List.append_nil]
      exact collect_done (hnow.trans hfail) (.inl hrest)
    · obtain ⟨reads, hstep⟩ := collect_block (hnow.trans hfail) hrest hroom
      have hall : file.rest.take blockSize = file.rest := List.take_of_length_le (by omega)
      have hend : (file.after blockSize reads).rest = [] := List.drop_eq_nil_of_le (by omega)
      have hclean : (file.after blockSize reads).shortfall blockSize = none :=
        Source.shortfall_of_clean ((Source.after_failure ..).trans hfail) blockSize
      rw [hstep, hall]
      exact collect_done hclean (.inl hend)

/-- **What comes together behind the blocks so far**, with room for `n` more.  The induction is on
`n`: there is a whole block to go on with, or what is left is short. -/
theorem collect_eq {n : Nat} (hroom : sofar.length + blockSize * n = fileLimit + blockSize) :
    collect sofar file = (file.shortfall (blockSize * (n + 1))).elim
      (.ok ((sofar ++ file.rest).take (fileLimit + blockSize))) .error := by
  induction n generalizing sofar file with
  | zero =>
    have hlen : sofar.length = fileLimit + blockSize := by omega
    have hfull : fileLimit < sofar.length := by rw [hlen, blockSize]; omega
    rw [Nat.zero_add, Nat.mul_one, ← hlen, List.take_left]
    cases hfail : file.shortfall blockSize with
    | some e => exact collect_failure hfail
    | none => exact collect_done hfail (.inr hfull)
  | succ n ih =>
    have hle : sofar.length ≤ fileLimit := by rw [blockSize] at hroom; omega
    rcases Nat.lt_or_ge file.rest.length blockSize with hshort | hblock
    · have hlater : file.shortfall (blockSize * (n + 1 + 1)) = file.failure :=
        Source.shortfall_of_short (by rw [Nat.mul_succ]; omega)
      have htake : (sofar ++ file.rest).take (fileLimit + blockSize) = sofar ++ file.rest := by
        refine List.take_of_length_le ?_
        rw [List.length_append]
        omega
      rw [collect_short hshort hle, hlater, htake]
    · have hrest : file.rest ≠ [] := by
        intro hnil
        rw [hnil, List.length_nil, blockSize] at hblock
        omega
      obtain ⟨reads, hstep⟩ := collect_block (if_pos hblock) hrest hle
      have hnext : (sofar ++ file.rest.take blockSize).length + blockSize * n
          = fileLimit + blockSize := by
        rw [List.length_append, List.length_take, Nat.min_eq_left hblock, Nat.add_assoc, ← hroom,
          Nat.mul_succ, Nat.add_comm blockSize]
      have hmore : blockSize + blockSize * (n + 1) = blockSize * (n + 1 + 1) := by
        rw [Nat.mul_succ blockSize (n + 1), Nat.add_comm]
      rw [hstep, ih hnext, Source.shortfall_after reads _ hblock, hmore, Source.after_rest,
        List.append_assoc, List.take_append_drop]

/-! ## 2. Files -/

/-- What is read of a file: nothing if it fails while it is looked at, or every byte of it unless they
are too many. -/
theorem readWhole_eq (file : Source) :
    readWhole file = (file.shortfall lookahead).elim
      (if file.rest.length ≤ fileLimit then .ok file.rest else .error .tooLong)
      fun _ => .error .unreadable := by
  have hroom : ([] : Bytes).length + blockSize * 17 = fileLimit + blockSize := rfl
  have hcollect : collect [] file = (file.shortfall lookahead).elim
      (.ok (file.rest.take (fileLimit + blockSize))) .error := collect_eq hroom
  rw [readWhole, hcollect]
  cases file.shortfall lookahead with
  | some e => rfl
  | none =>
    simp only [Option.elim_none, List.length_take]
    by_cases hlen : file.rest.length ≤ fileLimit
    · rw [if_pos hlen, if_neg (by omega), List.take_of_length_le (by omega)]
    · rw [if_neg hlen, if_pos (by rw [blockSize]; omega)]

/-- **A text that is read is the whole file.** -/
theorem readWhole_ok_iff : readWhole file = .ok text ↔
    file.shortfall lookahead = none ∧ file.rest.length ≤ fileLimit ∧ text = file.rest := by
  rw [readWhole_eq]
  cases file.shortfall lookahead with
  | some e => simp
  | none =>
    by_cases hlen : file.rest.length ≤ fileLimit
    · simp [hlen, eq_comm]
    · simp [hlen]

theorem readWhole_unreadable {e : IoError} (h : file.shortfall lookahead = some e) :
    readWhole file = .error .unreadable := by
  rw [readWhole_eq, h, Option.elim_some]

theorem readWhole_tooLong (h : file.shortfall lookahead = none)
    (hlen : fileLimit < file.rest.length) : readWhole file = .error .tooLong := by
  rw [readWhole_eq, h, Option.elim_none, if_neg (by omega)]

theorem readFile_of_fileAt (hfile : d.FileAt path b) :
    readFile d path = if b.length ≤ fileLimit then .ok b else .error .tooLong := by
  obtain ⟨node, hopen, rfl⟩ := hfile
  have hclean : (Source.ofBytes (d.content node).bytes 0).shortfall lookahead = none :=
    Source.shortfall_of_clean rfl lookahead
  have hread := readWhole_eq (.ofBytes (d.content node).bytes 0)
  rw [hclean, Option.elim_none] at hread
  simp only [readFile, hopen, Descriptor.borrow, Descriptor.source, Nat.sub_zero]
  exact hread

theorem readFile_of_unopened {e : SystemError} (hopen : d.openPath path = .error e) :
    readFile d path = .error .unopened := by
  simp only [readFile, hopen]

theorem readFile_of_directory (hopen : d.openPath path = .ok .directory) :
    readFile d path = .error .unreadable := by
  simp only [readFile, hopen, Descriptor.borrow, Descriptor.source]
  exact readWhole_unreadable (e := .readFailed) rfl

/-! ## 3. Loading -/

theorem toNat_length (hlen : b.length ≤ fileLimit) : (UInt32.ofNat b.length).toNat = b.length := by
  rw [fileLimit] at hlen
  exact UInt32.toNat_ofNat_of_lt' (by rw [UInt32.size]; omega)

theorem loadFileWith_of_text (hread : readFile h.disk path = .ok text) (format : Option Format) :
    loadFileWith first others h format path s = loadText (first :: others)
      (some (format.getD (Format.ofPath first.format (others.map Backend.format) path))) text s h := by
  simp only [loadFileWith, hread]

/-- What comes of handing a text and a length to the parser of a backend. -/
def Backend.handed (k : Backend) (text : Bytes) (size : UInt32) (s : Settings) (h : Host) :
    Except ConfigError Unit × Settings × Host :=
  let r := k.parser text size s h.log
  (r.1, r.2.1, { h with log := r.2.2 })

theorem loadText_of_find {backends : List Backend} {format : Format} {k : Backend}
    (hfind : backends.find? (fun k => k.format = format) = some k) (text : Bytes) (s : Settings)
    (h : Host) :
    loadText backends (some format) text s h
      = k.handed text (UInt32.ofNat text.length) s h := by
  have hsame : (backends.find? fun k => some k.format = some format) = some k := by
    simpa only [Option.some.injEq] using hfind
  rw [loadText, hsame]
  rfl

/-- **Settings files are read whole or refused.**  A file that does not fail while it is looked at is
read in full if it has at most `fileLimit` bytes, and refused as too long otherwise; one that fails is
unreadable.  So the parser of the backend for the format is handed the bytes of the file and how many
they are, with nothing lost in the word that tells it; a file that is too long, cannot be opened or is
unreadable is refused with its own error, without a change to the settings.

Blocks are read until one brings nothing or the limit is passed.  A text that stopped short of its
file would have to have passed the limit, and is refused for its length; so what is handed on is all
there is, and short enough for the word. -/
theorem whole_or_refused (first : Backend) (others : List Backend) (h : Host)
    (format : Option Format) (path : Bytes) (s : Settings) :
    (∀ file : Source, file.shortfall lookahead = none →
      (∀ text, readWhole file = .ok text ↔ text = file.rest ∧ file.rest.length ≤ fileLimit) ∧
      (fileLimit < file.rest.length → readWhole file = .error .tooLong)) ∧
    (∀ file : Source, ∀ e, file.shortfall lookahead = some e →
      readWhole file = .error .unreadable) ∧
    (∀ b, h.disk.FileAt path b →
      (∀ text, readFile h.disk path = .ok text ↔ text = b ∧ b.length ≤ fileLimit) ∧
      (b.length ≤ fileLimit →
        (UInt32.ofNat b.length).toNat = b.length ∧
        loadFileWith first others h format path s = loadText (first :: others)
          (some (format.getD (Format.ofPath first.format (others.map Backend.format) path))) b s h ∧
        ∀ k, (first :: others).find? (fun k => k.format
            = format.getD (Format.ofPath first.format (others.map Backend.format) path)) = some k →
          loadFileWith first others h format path s
            = k.handed b (UInt32.ofNat b.length) s h) ∧
      (fileLimit < b.length → loadFileWith first others h format path s
        = (.error .bufferFull, s, h.report (.settingsTooLong path)))) ∧
    (∀ e, h.disk.openPath path = .error e → loadFileWith first others h format path s
      = (.error .fileNotFound, s, h.report (.settingsUnopened path))) ∧
    (h.disk.openPath path = .ok .directory →
      readFile h.disk path = .error .unreadable) ∧
    (readFile h.disk path = .error .unreadable →
      loadFileWith first others h format path s = (.error .fileNotFound, s, h)) := by
  refine ⟨fun file hclean => ⟨fun text => ?_, readWhole_tooLong hclean⟩,
    fun file e hfail => readWhole_unreadable hfail, fun b hfile => ?_, ?_, readFile_of_directory, ?_⟩
  · rw [readWhole_ok_iff, and_iff_right hclean, and_comm]
  · have hread := readFile_of_fileAt hfile
    refine ⟨fun text => ?_, fun hlen => ?_, fun hlen => ?_⟩
    · rw [hread]
      split_ifs with hlen <;> simp [hlen, eq_comm]
    · rw [if_pos hlen] at hread
      exact ⟨toNat_length hlen, loadFileWith_of_text hread format, fun k hfind =>
        (loadFileWith_of_text hread format).trans (loadText_of_find hfind b s h)⟩
    · rw [if_neg (by omega)] at hread
      simp only [loadFileWith, hread, ReadFault.error, ReadFault.event?]
  · intro e hopen
    simp only [loadFileWith, readFile_of_unopened hopen, ReadFault.error, ReadFault.event?]
  · intro hread
    simp only [loadFileWith, hread, ReadFault.error, ReadFault.event?]

/-- What is said of a text and its length. -/
def noted (text : Bytes) (size : UInt32) : Event := .written .info "Config" text "" size.toNat

/-- Takes nothing from a text, but notes what it was handed. -/
def recording : Backend :=
  ⟨.ini, fun text size s log => (.ok (), s, log.record (noted text size))⟩

/-- A disk with one settings file of so many bytes. -/
def hostWith (length : Nat) : Host :=
  { Host.empty with
    disk := (Disk.empty.addFile ["work", "a.ini"] (.ofBytes (List.replicate length 10))).2 }

theorem fileAt_hostWith (length : Nat) :
    (hostWith length).disk.FileAt "a.ini" (List.replicate length 10) := by
  have hread := FileNode.readAt_ofBytes (List.replicate length 10) 0 length
  rw [List.drop_zero, List.take_of_length_le (by rw [List.length_replicate])] at hread
  refine ⟨0, rfl, Eq.trans ?_ hread⟩
  rw [FileNode.bytes]
  congr 1
  exact List.length_replicate

/-- Of a file of the largest size the parser is handed every byte and the right length; a file with a
byte more is refused, and so is a directory and a file that is not there. -/
theorem loads_at_the_limit :
    loadFileWith recording [] (hostWith 65536) none "a.ini" .empty
      = (.ok (), .empty, (hostWith 65536).report (noted (List.replicate 65536 10) 65536)) ∧
    loadFileWith recording [] (hostWith 65537) none "a.ini" .empty
      = (.error .bufferFull, .empty, (hostWith 65537).report (.settingsTooLong "a.ini")) ∧
    loadFileWith recording [] (hostWith 1) none "b.ini" .empty
      = (.error .fileNotFound, .empty, (hostWith 1).report (.settingsUnopened "b.ini")) ∧
    loadFileWith recording [] (hostWith 1) none "/tmp" .empty
      = (.error .fileNotFound, .empty, hostWith 1) := by
  have hlimit := (whole_or_refused recording [] (hostWith 65536) none "a.ini" .empty).2.2.1 _
    (fileAt_hostWith 65536)
  have hlonger := (whole_or_refused recording [] (hostWith 65537) none "a.ini" .empty).2.2.1 _
    (fileAt_hostWith 65537)
  obtain ⟨-, -, -, hunopened, -⟩ := whole_or_refused recording [] (hostWith 1) none "b.ini" .empty
  obtain ⟨-, -, -, -, hdirectory, hunreadable⟩ :=
    whole_or_refused recording [] (hostWith 1) none "/tmp" .empty
  refine ⟨?_, ?_, hunopened .noSuchFile rfl, hunreadable (hdirectory rfl)⟩
  · have hlen : (List.replicate 65536 (10 : UInt8)).length ≤ fileLimit := by
      rw [List.length_replicate, fileLimit]
    obtain ⟨-, -, hhanded⟩ := hlimit.2.1 hlen
    have hload := hhanded recording (List.find?_cons_of_pos rfl)
    rw [List.length_replicate] at hload
    exact hload
  · refine hlonger.2.2 ?_
    rw [List.length_replicate, fileLimit]
    omega

end Config

end Intake
