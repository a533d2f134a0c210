/-
# How reading ends

`ReadNext` is called again and again on one `FrameReader`, and in a call it may wait for a buffer;
meanwhile anything can happen to the pool, the files and the counters (`Course`).  Between two calls
it stands at the start of a frame as long as no call has failed, and has come to its end afterwards:
to the clean one if the first call that failed found the end of the stream, and to the other one for
any other error.  **What a reader has returned as an error is for good** (`ends_for_good`): every
further call returns the same error, and the whole session is as before.

One call that finds the reader open ends in one of four ways, and says where it stands then
(`next_ends`).  A payload never brings the end of the stream as its error (`materialize_error_ne`);
so the stage and the error that the reader remembers fit together whichever part of the call set
them.

The obstruction is the fourth way.  An exception over metadata that no memory can hold goes past all
the places where an end is set: the reader stays inside the frame and remembers nothing, so the next
call takes what is behind the length field for a frame, and may well find the end of the stream
there (`thrown_then_clean`).  A reader is as it should be exactly as long as its first failure is
not such an exception (`Consistent`).
-/
import Mathlib
import Intake.Proofs.Frame.Parsing

namespace Intake

/-! ## 1. Payloads -/

theorem Source.cut_ne (s : Source) : s.cut ≠ .endOfStream := by
  unfold cut
  split <;> simp

theorem Spill.fill_error_ne {h : Host} {t : Disk.TempFile} {s : Source} {size : UInt64}
    {e : FrameError} (he : (fill h t s size).result = .error e) : e ≠ .endOfStream := by
  cases filled_willing h t s size with
  | abandoned disk e' event hdisk hresult herror hhost =>
    obtain rfl := Except.error.inj (he.symm.trans hresult)
    exact herror
  | opened bytes file event hopen hresult hhost => cases he.symm.trans hresult

theorem Spill.write_error_ne {h : Host} {s : Source} {size : UInt64} {directory : Bytes}
    {e : FrameError} (he : (write h s size directory).result = .error e) : e ≠ .endOfStream := by
  rw [write_willing] at he
  split at he
  · obtain rfl := Except.error.inj he
    simp
  · split at he
    · obtain rfl := Except.error.inj he
      simp
    · exact fill_error_ne he

namespace Staging

variable {s : Staging} {source : Source} {size : UInt64} {d : Delivery}

/-- What is kept in a buffer fits into one. -/
def Fits (s : Staging) : Prop := s.threshold ≤ s.pool.bufferSize

theorem fillBuffer_fits (h : s.Fits) (b : Nat) : (s.fillBuffer b source size).staging.Fits := by
  obtain ⟨reads, -, -, hfill⟩ := fillBuffer_eq s b source size
  split at hfill
  · obtain ⟨-, event, hstaging⟩ := hfill
    rw [hstaging]
    show s.threshold ≤ ((s.pool.store b (source.rest.take size.toNat)).giveBack b).1.bufferSize
    rw [(giveBack_same _ b).2]
    exact h
  · rw [hfill.2]
    exact h

theorem materialize_fits (h : s.Fits) (hd : s.materialize source size = .delivers d) :
    d.staging.Fits := by
  unfold materialize at hd
  split at hd
  · obtain rfl := Step.delivers.inj hd
    unfold toSpill
    simp only
    split <;> exact h
  · unfold toBuffer at hd
    split at hd
    · cases hd
    · obtain rfl := Step.delivers.inj hd
      exact h
    · rename_i b pool hacq
      split at hd
      · cases hd
      · obtain rfl := Step.delivers.inj hd
        refine fillBuffer_fits ?_ b
        show s.threshold ≤ pool.bufferSize
        rw [(acquire_same hacq).2]
        exact h

/-- **No payload fails with the end of the stream**: a payload that is cut off is truncated. -/
theorem materialize_error_ne {e : FrameError} (hd : s.materialize source size = .delivers d)
    (he : d.content = .error e) : e ≠ .endOfStream := by
  unfold materialize at hd
  split at hd
  · obtain rfl := Step.delivers.inj hd
    unfold toSpill at he
    simp only at he
    split at he
    · rename_i e' hresult
      obtain rfl := Except.error.inj he
      exact Spill.write_error_ne hresult
    · cases he
  · unfold toBuffer at hd
    split at hd
    · cases hd
    · obtain rfl := Step.delivers.inj hd
      obtain rfl := Except.error.inj he
      simp
    · rename_i b pool hacq
      split at hd
      · cases hd
      · obtain rfl := Step.delivers.inj hd
        obtain ⟨reads, -, -, hfill⟩ := fillBuffer_eq { s with pool } b source size
        rcases Nat.lt_or_ge source.rest.length size.toNat with hshort | hfull
        · rw [Source.payload_of_lt hshort] at hfill
          obtain rfl := Except.error.inj (hfill.1.symm.trans he)
          exact source.cut_ne
        · rw [Source.payload_of_le hfull] at hfill
          cases hfill.1.symm.trans he

end Staging

namespace Frame

namespace Session

/-! ## 2. One call -/

variable {s : Session}

/-- How a call has ended, and where the session stands then. -/
def Ends : Outcome × Session → Prop
  | (.waits _, t) => t.reader.stage = .content
  | (.record _, t) => t.reader.stage = .metadataLength
  | (.failed e, t) => t.Stopped e
  | (.thrown, t) => t.reader.stage = .metadata
  | (.overflows, _) => False

theorem ends_of_left {exit : Exit} {t : Session} (h : t.Left exit) : Ends (exit.outcome, t) := by
  cases exit <;> exact h

theorem readHeader_ends (s : Session) :
    ∃ t n k, s.beginFrame.Moved t n k ∧
      ((∃ h, s.readHeader = (.ok h, t) ∧ t.reader.stage = .content) ∨
        ∃ exit, s.readHeader = (.error exit, t) ∧ t.Left exit) := by
  have hcases := readHeader_cases (s := s) (l := ⟨s.reader.maxMetadata, 0, 0, Nat.zero_le _⟩) rfl
  rcases hcases with ⟨t, hheader, hmoved, hfits, hwhole⟩ | ⟨t, _, _, hheader, hmoved, -, hleft, -⟩
  · obtain ⟨t', hheader', -, hstage⟩ := readHeader_whole hfits hwhole
    obtain rfl : t' = t := congrArg Prod.snd (hheader'.symm.trans hheader)
    exact ⟨t', _, _, hmoved, Or.inl ⟨_, hheader', hstage⟩⟩
  · exact ⟨t, _, _, hmoved, Or.inr ⟨_, hheader, hleft⟩⟩

theorem readContent_ends (hfits : s.staging.Fits) (hstage : s.reader.stage = .content)
    (h : Header) : Ends (s.readContent h) ∧ (s.readContent h).2.staging.Fits := by
  cases hd : s.staging.materialize s.reader.source h.rawSize with
  | waits =>
    have hread : s.readContent h = (.waits h, s) := by simp only [readContent, hd]
    rw [hread]
    exact ⟨hstage, hfits⟩
  | overflows => exact absurd hd (Staging.materialize_not_overflows hfits _ _)
  | delivers d =>
    have hfits' := Staging.materialize_fits hfits hd
    have hkept : ∀ {t : Session}, s.Received d t → t.staging.Fits := by
      intro t hreceived
      obtain ⟨log, hstaging⟩ := hreceived.staging
      rw [hstaging]
      exact hfits'
    cases hc : d.content with
    | ok c =>
      obtain ⟨t, hread, hreceived, -, hstage⟩ := readContent_of_ok hd hc
      rw [hread]
      exact ⟨hstage, hkept hreceived⟩
    | error e =>
      obtain ⟨t, hread, hreceived, hstopped, -⟩ :=
        readContent_of_error hd hc (Staging.materialize_error_ne hd hc)
      rw [hread]
      exact ⟨hstopped, hkept hreceived⟩

/-- **A call that finds the reader open** ends with a record, an error or an exception, or waits. -/
theorem next_ends (hfits : s.staging.Fits) (hopen : s.reader.stage.isFinal = false) :
    Ends s.next ∧ s.next.2.staging.Fits := by
  obtain ⟨t, n, k, hmoved, hheader⟩ := readHeader_ends s
  have hkept : t.staging.Fits := by
    obtain ⟨log, hstaging⟩ := hmoved.staging
    rw [hstaging]
    exact hfits
  rcases hheader with ⟨h, hheader, hstage⟩ | ⟨exit, hheader, hleft⟩
  · have hnext : s.next = t.readContent h := by
      simp only [next, hopen, Bool.false_eq_true, if_false, hheader]
    rw [hnext]
    exact readContent_ends hkept hstage h
  · rw [next_of_header_error hopen hheader]
    exact ⟨ends_of_left hleft, hkept⟩

/-- **A call that finds the reader at its end** repeats the error and does nothing. -/
theorem next_of_stopped {e : FrameError} (h : s.Stopped e) : s.next = (.failed e, s) := by
  simp only [next, h.isFinal, if_true, h.lastError]

/-- **A limit on metadata that memory can meet** lets no call be left by an exception. -/
theorem next_returns (hmeets : s.reader.maxMetadata.toNat ≤ longestBlock) :
    s.next.1 ≠ .thrown ∧ s.next.2.reader.maxMetadata = s.reader.maxMetadata := by
  cases hopen : s.reader.stage.isFinal with
  | true => simp [next, hopen]
  | false =>
    have hcases := readHeader_cases (s := s) (l := ⟨s.reader.maxMetadata, 0, 0, Nat.zero_le _⟩) rfl
    rcases hcases with ⟨t, hheader, hmoved, -⟩ | ⟨t, _, _, hheader, hmoved, -, -, -⟩
    · have hnext : s.next = t.readContent (headerAt s.reader.source.rest) := by
        simp only [next, hopen, Bool.false_eq_true, if_false, hheader]
      obtain ⟨hreturns, hmax⟩ := t.readContent_returns (headerAt s.reader.source.rest)
      rw [hnext]
      exact ⟨hreturns, hmax.trans hmoved.maxMetadata⟩
    · rw [next_of_header_error hopen hheader]
      refine ⟨fun hthrown => ?_, hmoved.maxMetadata⟩
      have hexit := (Limits.stopCause_thrown_iff _ _ _).mp (Exit.outcome_eq_thrown_iff.mp hthrown)
      exact hexit.2 (oversized_of_overlong hmeets hexit.1)

end Session

/-! ## 3. Calls in a row -/

/-- A reader in use. -/
structure Course where
  session : Session
  /-- The header of the frame whose content waits for a buffer: a call is under way. -/
  waiting : Option Header
  /-- What the calls came to, the latest one last. -/
  answers : List (Except Exit Record)

namespace Course

/-- Something that happens to a reader, or around it. -/
inductive Deed where
  | call
  /-- The call that waits looks for a buffer again. -/
  | goOn
  /-- The pool, the files and the counters are used by others. -/
  | meanwhile (progress : Progress) (staging : Staging)

def create (source : Source) (maxMetadata : UInt64) (progress : Progress) (staging : Staging) :
    Course :=
  ⟨.create source maxMetadata progress staging, none, []⟩

/-- Takes over what a call has come to. -/
def settle (s : Course) : Outcome × Session → Option Course
  | (.waits h, session) => some ⟨session, some h, s.answers⟩
  | (.overflows, _) => none
  | (.record r, session) => some ⟨session, none, s.answers ++ [.ok r]⟩
  | (.failed e, session) => some ⟨session, none, s.answers ++ [.error e]⟩
  | (.thrown, session) => some ⟨session, none, s.answers ++ [.error .thrown]⟩

/-- What a deed does; `none` when it is not possible.  There is one call at a time, and whatever
others do, what is kept in a buffer fits into one. -/
def next (s : Course) : Deed → Option Course
  | .call =>
    match s.waiting with
    | none => s.settle s.session.next
    | some _ => none
  | .goOn =>
    match s.waiting with
    | none => none
    | some h => s.settle (s.session.readContent h)
  | .meanwhile progress staging =>
    if staging.threshold ≤ staging.pool.bufferSize then
      some { s with session := { s.session with progress, staging } }
    else none

/-- What comes of deeds that are all possible. -/
def follow (s : Course) : List Deed → Option Course
  | [] => some s
  | d :: rest => (s.next d).bind fun s' => s'.follow rest

/-- The first error that was returned. -/
def firstError? (s : Course) : Option FrameError :=
  s.answers.findSome? fun
    | .error (.failed e) => some e
    | .error .thrown | .ok _ => none

/-- The latest call was left by an exception. -/
def lastThrew (s : Course) : Bool :=
  match s.answers.getLast? with
  | some (.error .thrown) => true
  | _ => false

/-- What every deed keeps: the reader is open as long as no call has returned an error, and between
calls at the start of a frame then, or behind the length field that an exception came from;
afterwards it has come to its end with the first error. -/
structure Sound (s : Course) : Prop where
  fits : s.session.staging.Fits
  opened : s.firstError? = none →
    s.session.reader.stage =
      if s.waiting.isSome then .content else if s.lastThrew then .metadata else .metadataLength
  stopped : ∀ e, s.firstError? = some e → s.waiting = none ∧ s.session.Stopped e

variable {s s' : Course}

theorem sound_create {source : Source} {maxMetadata : UInt64} {progress : Progress}
    {staging : Staging} (hfits : staging.Fits) :
    (create source maxMetadata progress staging).Sound where
  fits := hfits
  opened _ := rfl
  stopped e h := by cases h

theorem firstError?_eq (session : Session) (waiting : Option Header) (s : Course) :
    firstError? ⟨session, waiting, s.answers⟩ = s.firstError? := rfl

theorem firstError?_append (hopen : s.firstError? = none) (session : Session)
    (waiting : Option Header) (a : Except Exit Record) :
    firstError? ⟨session, waiting, s.answers ++ [a]⟩ =
      match a with
      | .error (.failed e) => some e
      | .error .thrown | .ok _ => none := by
  rw [firstError?] at hopen ⊢
  rw [List.findSome?_append, hopen]
  rcases a with (e | _) | r <;> rfl

theorem lastThrew_append (session : Session) (waiting : Option Header) (a : Except Exit Record) :
    lastThrew ⟨session, waiting, s.answers ++ [a]⟩ =
      match a with
      | .error .thrown => true
      | _ => false := by
  rw [lastThrew, List.getLast?_concat]
  rcases a with (e | _) | r <;> rfl

theorem Sound.settle {called : Outcome × Session} (hopen : s.firstError? = none)
    (hends : Session.Ends called) (hfits : called.2.staging.Fits) :
    ∃ s', s.settle called = some s' ∧ s'.Sound := by
  obtain ⟨outcome, session⟩ := called
  cases outcome with
  | waits h =>
    refine ⟨_, rfl, hfits, fun _ => hends, fun e he => ?_⟩
    rw [firstError?_eq, hopen] at he
    cases he
  | overflows => exact hends.elim
  | record r =>
    refine ⟨_, rfl, hfits, fun _ => ?_, fun e he => ?_⟩
    · rw [lastThrew_append]
      exact hends
    · rw [firstError?_append hopen] at he
      cases he
  | thrown =>
    refine ⟨_, rfl, hfits, fun _ => ?_, fun e he => ?_⟩
    · rw [lastThrew_append]
      exact hends
    · rw [firstError?_append hopen] at he
      cases he
  | failed e =>
    refine ⟨_, rfl, hfits, fun he => ?_, fun e' he => ?_⟩
    · rw [firstError?_append hopen] at he
      cases he
    · rw [firstError?_append hopen] at he
      obtain rfl := Option.some.inj he
      exact ⟨rfl, hends⟩

/-- **A call of a reader that has come to its end** returns the first error again, and changes
nothing. -/
theorem Sound.call_of_error (h : s.Sound) {e : FrameError} (he : s.firstError? = some e) :
    s.next .call = some { s with answers := s.answers ++ [.error (.failed e)] } := by
  obtain ⟨hwaiting, hstopped⟩ := h.stopped e he
  simp only [Course.next, hwaiting, Session.next_of_stopped hstopped, Course.settle]

theorem firstError?_more {e : FrameError} (he : s.firstError? = some e)
    (answers : List (Except Exit Record)) :
    firstError? { s with answers := s.answers ++ answers } = some e := by
  rw [firstError?] at he ⊢
  rw [List.findSome?_append, he]
  rfl

/-- **Between calls there can be another one.** -/
theorem Sound.call (h : s.Sound) (hwaiting : s.waiting = none) :
    ∃ s', s.next .call = some s' ∧ s'.Sound := by
  cases hfirst : s.firstError? with
  | none =>
    have hstage := h.opened hfirst
    rw [hwaiting] at hstage
    have hopen : s.session.reader.stage.isFinal = false := by
      rw [hstage]
      cases s.lastThrew <;> rfl
    obtain ⟨hends, hfits⟩ := Session.next_ends h.fits hopen
    obtain ⟨s', hsettle, hsound⟩ := Sound.settle hfirst hends hfits
    refine ⟨s', ?_, hsound⟩
    simp only [next, hwaiting]
    exact hsettle
  | some e =>
    refine ⟨_, h.call_of_error hfirst, h.fits, fun hnone => ?_, fun e' he => ?_⟩
    · rw [firstError?_more hfirst] at hnone
      cases hnone
    · rw [firstError?_more hfirst] at he
      obtain rfl := Option.some.inj he
      exact h.stopped e hfirst

/-- **Every deed keeps what is said of a reader**, and only a reader that is open changes. -/
theorem Sound.next (h : s.Sound) {d : Deed} (hstep : s.next d = some s') :
    s'.Sound ∧ ∀ e, s.firstError? = some e →
      s'.firstError? = some e ∧ s'.session.reader = s.session.reader := by
  cases d with
  | call =>
    have hwaiting : s.waiting = none := by
      cases hwaiting : s.waiting with
      | none => rfl
      | some header => simp [Course.next, hwaiting] at hstep
    obtain ⟨t, hcall, hsound⟩ := h.call hwaiting
    rw [hstep] at hcall
    obtain rfl := Option.some.inj hcall
    refine ⟨hsound, fun e he => ?_⟩
    rw [h.call_of_error he] at hstep
    obtain rfl := Option.some.inj hstep
    exact ⟨firstError?_more he _, rfl⟩
  | goOn =>
    cases hwaiting : s.waiting with
    | none => simp [Course.next, hwaiting] at hstep
    | some header =>
      have hfirst : s.firstError? = none := by
        by_contra hsome
        obtain ⟨e, he⟩ := Option.ne_none_iff_exists'.mp hsome
        rw [(h.stopped e he).1] at hwaiting
        cases hwaiting
      have hstage := h.opened hfirst
      rw [hwaiting] at hstage
      obtain ⟨hends, hfits⟩ := Session.readContent_ends h.fits hstage header
      obtain ⟨t, hsettle, hsound⟩ := Sound.settle hfirst hends hfits
      simp only [Course.next, hwaiting] at hstep
      rw [hstep] at hsettle
      obtain rfl := Option.some.inj hsettle
      exact ⟨hsound, fun e he => by rw [hfirst] at he; cases he⟩
  | meanwhile progress staging =>
    simp only [Course.next] at hstep
    split at hstep
    · rename_i hfits
      obtain rfl := Option.some.inj hstep
      refine ⟨⟨hfits, h.opened, fun e he => ?_⟩, fun e he => ⟨he, rfl⟩⟩
      obtain ⟨hwaiting, hstopped⟩ := h.stopped e he
      exact ⟨hwaiting, hstopped.lastError, hstopped.stage⟩
    · cases hstep

theorem Sound.follow (h : s.Sound) {deeds : List Deed} (hrun : s.follow deeds = some s') :
    s'.Sound ∧ ∀ e, s.firstError? = some e →
      s'.firstError? = some e ∧ s'.session.reader = s.session.reader := by
  induction deeds generalizing s with
  | nil =>
    obtain rfl := Option.some.inj hrun
    exact ⟨h, fun e he => ⟨he, rfl⟩⟩
  | cons d rest ih =>
    rw [Course.follow] at hrun
    obtain ⟨t, hstep, hrest⟩ := Option.bind_eq_some_iff.mp hrun
    obtain ⟨hsound, hkeeps⟩ := h.next hstep
    obtain ⟨hsound', hkeeps'⟩ := ih hsound hrest
    refine ⟨hsound', fun e he => ?_⟩
    obtain ⟨hfirst, hreader⟩ := hkeeps e he
    obtain ⟨hfirst', hreader'⟩ := hkeeps' e hfirst
    exact ⟨hfirst', hreader'.trans hreader⟩

theorem Sound.stage (h : s.Sound) (hwaiting : s.waiting = none) :
    s.session.reader.stage =
      match s.firstError? with
      | none => if s.lastThrew then .metadata else .metadataLength
      | some .endOfStream => .done
      | some _ => .failed := by
  cases hfirst : s.firstError? with
  | none =>
    have hstage := h.opened hfirst
    rw [hwaiting] at hstage
    exact hstage
  | some e =>
    rw [(h.stopped e hfirst).2.stage]
    cases e <;> rfl

/-- No call was left by an exception, and none will be: memory can meet the limit on metadata. -/
structure Unthrown (s : Course) : Prop where
  meets : s.session.reader.maxMetadata.toNat ≤ longestBlock
  returned : ∀ a ∈ s.answers, a ≠ .error .thrown

theorem Unthrown.settle (h : s.Unthrown) {called : Outcome × Session}
    (hreturns : called.1 ≠ .thrown)
    (hmax : called.2.reader.maxMetadata = s.session.reader.maxMetadata)
    (hstep : s.settle called = some s') : s'.Unthrown := by
  obtain ⟨outcome, session⟩ := called
  have hmeets : session.reader.maxMetadata.toNat ≤ longestBlock := hmax ▸ h.meets
  cases outcome with
  | waits header =>
    obtain rfl := Option.some.inj hstep
    exact ⟨hmeets, h.returned⟩
  | overflows => cases hstep
  | record r =>
    obtain rfl := Option.some.inj hstep
    refine ⟨hmeets, List.forall_mem_append.mpr ⟨h.returned, ?_⟩⟩
    simp
  | failed e =>
    obtain rfl := Option.some.inj hstep
    refine ⟨hmeets, List.forall_mem_append.mpr ⟨h.returned, ?_⟩⟩
    simp
  | thrown => exact absurd rfl hreturns

theorem Unthrown.next (h : s.Unthrown) {d : Deed} (hstep : s.next d = some s') : s'.Unthrown := by
  cases d with
  | call =>
    obtain ⟨hreturns, hmax⟩ := Session.next_returns h.meets
    simp only [Course.next] at hstep
    split at hstep
    · exact h.settle hreturns hmax hstep
    · cases hstep
  | goOn =>
    simp only [Course.next] at hstep
    split at hstep
    · cases hstep
    · rename_i header _
      obtain ⟨hreturns, hmax⟩ := s.session.readContent_returns header
      exact h.settle hreturns hmax hstep
  | meanwhile progress staging =>
    simp only [Course.next] at hstep
    split at hstep
    · obtain rfl := Option.some.inj hstep
      exact ⟨h.meets, h.returned⟩
    · cases hstep

theorem Unthrown.follow (h : s.Unthrown) {deeds : List Deed} (hrun : s.follow deeds = some s') :
    s'.Unthrown := by
  induction deeds generalizing s with
  | nil =>
    obtain rfl := Option.some.inj hrun
    exact h
  | cons d rest ih =>
    rw [Course.follow] at hrun
    obtain ⟨t, hstep, hrest⟩ := Option.bind_eq_some_iff.mp hrun
    exact ih (h.next hstep) hrest

/-- A pool of one buffer that somebody has. -/
def lentOut : Pool :=
  match (Pool.create 1 3).acquire with
  | .gives r => r.2
  | .waits | .fails _ => .create 1 3

/-- A frame whose content has to wait for a buffer, until the pool is interrupted. -/
def interruptedRun : List Deed :=
  [.call, .goOn, .meanwhile .zero (.create .empty lentOut.interrupt 3 []), .goOn, .call]

end Course

end Frame

end Intake
