/-
# What becomes of the records of a call

Every record that a call of `Ingest` reads goes the same way: the reading side has it, then the
queue, then a worker, and in the end the task is run on it.  `Engine.Accounts` says where the
records are: those that no worker has taken come behind those that were taken, in the order in which
they were read; what was run and what is still to be run make up what was read, with the content
bytes as they were in the frame; and the staging area houses the contents of the records that are on
their way, and nothing else.

The steps of workers keep the accounts (`Accounts.shift`, `Accounts.begins`, `Accounts.ends`), and
so does taking a content (`Accounts.produces`, `Accounts.spoils`).
-/
import Mathlib
import Intake.Engine.Pipeline
import Intake.Proofs.Crew.Shifts
import Intake.Proofs.Staging.Housing

namespace Intake

/-! ## 1. What was taken and what was run -/

/-- The record that a worker took out of the queue. -/
def Occurrence.taken? : Occurrence Record → Option Record
  | taken _ r => some r
  | started _ | accepted _ | begun .. | ended .. | dropped _ => none

namespace Engine

/-- The records that the workers of a call have taken out of the queue, in order. -/
def takenIn (e : Engine) (call : Nat) : List Record :=
  e.history.filterMap fun x => if x.1 = call then x.2.taken? else none

/-- The records of a call that came into the queue, in order. -/
def acceptedIn (e : Engine) (call : Nat) : List Record :=
  e.history.filterMap fun x => if x.1 = call then x.2.accepted? else none

/-- The records that the task was run on in a call, with the content bytes that it found. -/
def ranIn (e : Engine) (call : Nat) : List (Record × Except ReadFault Bytes) :=
  (e.runs.filter fun r => r.call = call).map fun r => (r.record, r.bytes)

variable {e e' : Engine} {call : Nat}

theorem picked_of_past (pick : Occurrence Record → Option Record) {o : Occurrence Record}
    (hcall : e.call = call) (hpast : e'.past = (e.call, o) :: e.past) :
    e'.history.filterMap (fun x => if x.1 = call then pick x.2 else none)
      = e.history.filterMap (fun x => if x.1 = call then pick x.2 else none)
        ++ (pick o).toList := by
  unfold history
  rw [hpast, List.reverse_cons, List.filterMap_append]
  cases h : pick o <;> simp [hcall, h]

theorem takenIn_of_past {o : Occurrence Record} (hcall : e.call = call)
    (hpast : e'.past = (e.call, o) :: e.past) :
    e'.takenIn call = e.takenIn call ++ o.taken?.toList :=
  picked_of_past Occurrence.taken? hcall hpast

theorem acceptedIn_of_past {o : Occurrence Record} (hcall : e.call = call)
    (hpast : e'.past = (e.call, o) :: e.past) :
    e'.acceptedIn call = e.acceptedIn call ++ o.accepted?.toList :=
  picked_of_past Occurrence.accepted? hcall hpast

theorem takenIn_congr (hpast : e'.past = e.past) : e'.takenIn call = e.takenIn call := by
  simp only [takenIn, history, hpast]

theorem acceptedIn_congr (hpast : e'.past = e.past) : e'.acceptedIn call = e.acceptedIn call := by
  simp only [acceptedIn, history, hpast]

theorem ranIn_congr (hruns : e'.runs = e.runs) : e'.ranIn call = e.ranIn call := by
  simp only [ranIn, hruns]

theorem ranIn_begun {r : Record} {bytes : Except ReadFault Bytes} (hcall : e.call = call)
    (hruns : e'.runs = e.runs ++ [⟨e.call, r, bytes, none⟩]) :
    e'.ranIn call = e.ranIn call ++ [(r, bytes)] := by
  simp [ranIn, hruns, hcall]

theorem ranIn_ended {number : Nat} {id : UInt64} {ending : Ending}
    (hruns : e'.runs = e.runs.map (Run.conclude number id ending)) :
    e'.ranIn call = e.ranIn call := by
  have hsame : ∀ r : Run, (Run.conclude number id ending r).call = r.call ∧
      (Run.conclude number id ending r).record = r.record ∧
      (Run.conclude number id ending r).bytes = r.bytes := by
    intro r
    unfold Run.conclude
    split <;> exact ⟨rfl, rfl, rfl⟩
  unfold ranIn
  rw [hruns, List.filter_map, List.map_map]
  simp only [Function.comp_def, (hsame _).1, (hsame _).2.1, (hsame _).2.2]

/-- Nothing has changed about the call itself. -/
structure SameCall (e e' : Engine) : Prop where
  call : e'.call = e.call
  options : e'.options = e.options
  broken : e'.broken = e.broken
  ingestion : e'.ingestion = e.ingestion
  results : e'.results = e.results

theorem note_same (e : Engine) (o : Occurrence Record) :
    SameCall e (e.note o) ∧ (e.note o).crew = e.crew ∧ (e.note o).past = (e.call, o) :: e.past := by
  unfold note
  cases o <;> simp only [settleRecord] <;> split <;>
    exact ⟨⟨rfl, rfl, rfl, rfl, rfl⟩, rfl, rfl⟩

theorem note_ended (e : Engine) (worker : Nat) (r : Record) (ending : Ending) :
    (e.note (.ended worker r ending)).ranIn call = e.ranIn call ∧
      (e.staging.release r.content).Noted (e.note (.ended worker r ending)).staging := by
  unfold note
  simp only [settleRecord]
  split
  · exact ⟨ranIn_ended rfl, Staging.noted_report _ _⟩
  · exact ⟨ranIn_ended rfl, .refl _⟩

/-- Nothing that was run or happened belongs to a later call. -/
def Until (e : Engine) (call : Nat) : Prop :=
  (∀ r ∈ e.runs, r.call ≤ call) ∧ ∀ x ∈ e.past, x.1 ≤ call

theorem Until.note (h : e.Until call) (hcall : e.call = call) (o : Occurrence Record) :
    (e.note o).Until call := by
  refine ⟨?_, ?_⟩
  · have hruns : ∀ r ∈ ({ e with past := (e.call, o) :: e.past }.settleRecord o).runs,
        r.call ≤ call := by
      intro r hr
      cases o with
      | begun worker record =>
        rcases List.mem_append.mp hr with hr | hr
        · exact h.1 r hr
        · obtain rfl := List.mem_singleton.mp hr
          exact hcall.le
      | ended worker record ending =>
        obtain ⟨r', hr', rfl⟩ := List.mem_map.mp hr
        have hsame : (Run.conclude e.call record.id ending r').call = r'.call := by
          unfold Run.conclude
          split <;> rfl
        rw [hsame]
        exact h.1 r' hr'
      | _ => exact h.1 r hr
    unfold Engine.note
    simp only
    split <;> exact hruns
  · rw [(note_same e o).2.2]
    intro x hx
    rcases List.mem_cons.mp hx with rfl | hx
    · exact hcall.le
    · exact h.2 x hx

/-- No record was accepted or taken and nothing was run in a call that is still to come. -/
theorem Until.nothing_in (h : ∀ r ∈ e.runs, r.call < call) (h' : ∀ x ∈ e.past, x.1 < call) :
    e.acceptedIn call = [] ∧ e.takenIn call = [] ∧ e.ranIn call = [] := by
  refine ⟨List.filterMap_eq_nil_iff.mpr ?_, List.filterMap_eq_nil_iff.mpr ?_, ?_⟩
  · intro x hx
    have hlt := h' x (List.mem_reverse.mp hx)
    rw [if_neg (by omega)]
  · intro x hx
    have hlt := h' x (List.mem_reverse.mp hx)
    rw [if_neg (by omega)]
  · have hnone : e.runs.filter (fun r => r.call = call) = [] :=
      List.filter_eq_nil_iff.mpr fun r hr => by
        have hlt := h r hr
        simp only [decide_eq_true_eq]
        omega
    rw [ranIn, hnone, List.map_nil]

/-! ## 2. The accounts of a call -/

/-- Where the records of a call are.  `produced` are those that were read, with the content bytes of
their frames, and `inflow` those of them that no worker has taken. -/
structure Accounts (base : Host) (start : Staging) (call : Nat) (e : Engine) (c : Crew Record)
    (inflow : List Record) (produced : List (Record × Bytes)) : Prop where
  houses : e.staging.Houses base ((c.running ++ (c.waiting ++ inflow)).map Record.content)
  alike : start.Alike e.staging
  order : e.takenIn call ++ inflow = produced.map Prod.fst
  runs : (e.ranIn call ++
    (c.waiting ++ inflow).map fun r => (r, e.staging.remaining r.content)).Perm
      (produced.map fun p => (p.1, .ok p.2))
  counted : c.completed + c.failed + UInt64.ofNat c.running.length
    = UInt64.ofNat (e.ranIn call).length

variable {base : Host} {start : Staging} {c c' : Crew Record} {inflow inflow' : List Record}
  {produced : List (Record × Bytes)}

/-- **Nothing is run and nothing ends**: records move on at most. -/
theorem Accounts.shift (h : Accounts base start call e c inflow produced)
    (hstaging : e.staging.Noted e'.staging)
    (horder : e'.takenIn call ++ inflow' = e.takenIn call ++ inflow)
    (hran : e'.ranIn call = e.ranIn call)
    (hwaiting : (c'.waiting ++ inflow').Perm (c.waiting ++ inflow))
    (hrunning : c'.running.Perm c.running) (hcompleted : c'.completed = c.completed)
    (hfailed : c'.failed = c.failed) : Accounts base start call e' c' inflow' produced := by
  have hlive : ((c'.running ++ (c'.waiting ++ inflow')).map Record.content).Perm
      ((c.running ++ (c.waiting ++ inflow)).map Record.content) :=
    (hrunning.append hwaiting).map _
  refine ⟨(hstaging.houses h.houses).perm hlive.symm, hstaging.alike h.alike,
    horder.trans h.order, ?_, ?_⟩
  · simp only [hran, hstaging.remaining]
    exact ((hwaiting.map _).append_left _).trans h.runs
  · rw [hcompleted, hfailed, hran, hrunning.length_eq]
    exact h.counted

/-- **A worker begins to run the task on a record.** -/
theorem Accounts.begins (h : Accounts base start call e c inflow produced) {r : Record}
    (hstaging : e'.staging = e.staging) (htaken : e'.takenIn call = e.takenIn call)
    (hran : e'.ranIn call = e.ranIn call ++ [(r, e.staging.remaining r.content)])
    (hwaiting : (r :: c'.waiting).Perm c.waiting) (hrunning : c'.running.Perm (r :: c.running))
    (hcompleted : c'.completed = c.completed) (hfailed : c'.failed = c.failed) :
    Accounts base start call e' c' inflow produced := by
  have hpending : (r :: (c'.waiting ++ inflow)).Perm (c.waiting ++ inflow) :=
    hwaiting.append_right inflow
  have hlive : (c'.running ++ (c'.waiting ++ inflow)).Perm (c.running ++ (c.waiting ++ inflow)) :=
    (hrunning.append_right _).trans (List.perm_middle.symm.trans (hpending.append_left _))
  refine ⟨?_, ?_, ?_, ?_, ?_⟩
  · rw [hstaging]
    exact h.houses.perm (hlive.map _).symm
  · rw [hstaging]
    exact h.alike
  · rw [htaken]
    exact h.order
  · rw [hran, hstaging, List.append_assoc]
    exact ((hpending.map _).append_left _).trans h.runs
  · rw [hcompleted, hfailed, hran, hrunning.length_eq, List.length_append, List.length_singleton,
      List.length_cons, UInt64.ofNat_add, UInt64.ofNat_add, ← h.counted, ← UInt64.add_assoc]

/-- **The task ends with a record**, and its content is let go of. -/
theorem Accounts.ends (h : Accounts base start call e c inflow produced) {r : Record}
    (hstaging : (e.staging.release r.content).Noted e'.staging)
    (htaken : e'.takenIn call = e.takenIn call) (hran : e'.ranIn call = e.ranIn call)
    (hwaiting : c'.waiting.Perm c.waiting) (hrunning : (r :: c'.running).Perm c.running)
    (hcounts : c'.completed + c'.failed = c.completed + c.failed + 1) :
    Accounts base start call e' c' inflow produced := by
  have hpending : (c'.waiting ++ inflow).Perm (c.waiting ++ inflow) := hwaiting.append_right inflow
  have hlive : ((c.running ++ (c.waiting ++ inflow)).map Record.content).Perm
      (r.content :: (c'.running ++ (c'.waiting ++ inflow)).map Record.content) :=
    ((hrunning.append hpending).map Record.content).symm
  obtain ⟨hhouses, halike, hspared⟩ := (h.houses.perm hlive).release
  refine ⟨hstaging.houses hhouses, hstaging.alike (h.alike.trans halike), ?_, ?_, ?_⟩
  · rw [htaken]
    exact h.order
  · have hsame : (c'.waiting ++ inflow).map (fun r => (r, e'.staging.remaining r.content))
        = (c'.waiting ++ inflow).map fun r => (r, e.staging.remaining r.content) :=
      List.map_congr_left fun a ha => by
        rw [hstaging.remaining,
          hspared _ (List.mem_map_of_mem (List.mem_append_right c'.running ha))]
    rw [hran, hsame]
    exact ((hpending.map _).append_left _).trans h.runs
  · have hlen := hrunning.length_eq
    rw [List.length_cons] at hlen
    rw [hcounts, hran, ← h.counted, ← hlen, Nat.add_comm, UInt64.ofNat_add, ← UInt64.add_assoc]
    rfl

theorem live_concat (running waiting inflow : List Record) (r : Record) :
    ((running ++ (waiting ++ (inflow ++ [r]))).map Record.content).Perm
      (r.content :: (running ++ (waiting ++ inflow)).map Record.content) := by
  rw [← List.append_assoc, ← List.append_assoc, ← List.append_assoc]
  exact (List.perm_append_singleton r _).map Record.content

/-- **A content is taken**, and a record comes of it. -/
theorem Accounts.produces (h : Accounts base start call e c inflow produced)
    {source : Source} {size : UInt64} {d : Staging.Delivery} {r : Record} {bytes : Bytes}
    (hd : e.staging.materialize source size = .delivers d) (hcontent : d.content = .ok r.content)
    (hremaining : d.staging.remaining r.content = .ok bytes)
    (hstaging : d.staging.Noted e'.staging) (hpast : e'.past = e.past) (hruns : e'.runs = e.runs) :
    Accounts base start call e' c (inflow ++ [r]) (produced ++ [(r, bytes)]) := by
  obtain ⟨hholds, hleaves⟩ := Staging.materialize_holds h.houses hd
  unfold Staging.Holds at hholds
  rw [hcontent] at hholds
  have hpending : (c.waiting ++ (inflow ++ [r])).Perm (r :: (c.waiting ++ inflow)) := by
    rw [← List.append_assoc]
    exact List.perm_append_singleton _ _
  refine ⟨(hstaging.houses hholds).perm (live_concat _ _ _ r).symm,
    hstaging.alike (h.alike.trans hleaves.alike), ?_, ?_, ?_⟩
  · rw [takenIn_congr hpast, ← List.append_assoc, h.order, List.map_append]
    rfl
  · have hsame : (c.waiting ++ inflow).map (fun r => (r, e'.staging.remaining r.content))
        = (c.waiting ++ inflow).map fun r => (r, e.staging.remaining r.content) :=
      List.map_congr_left fun a ha => by
        rw [hstaging.remaining,
          hleaves.spared _ (List.mem_map_of_mem (List.mem_append_right c.running ha))]
    have hnew : e'.staging.remaining r.content = .ok bytes :=
      (hstaging.remaining _).trans hremaining
    have hmoved := (hpending.map fun r => (r, e'.staging.remaining r.content)).append_left
      (e.ranIn call)
    rw [List.map_cons, hsame, hnew] at hmoved
    have hlast : (produced ++ [(r, bytes)]).map
        (fun p => (p.1, (.ok p.2 : Except ReadFault Bytes)))
        = (produced.map fun p => (p.1, .ok p.2)) ++ [(r, .ok bytes)] := List.map_append
    rw [ranIn_congr hruns, hlast]
    exact hmoved.trans (List.perm_middle.trans
      ((h.runs.cons _).trans (List.perm_append_singleton _ _).symm))
  · rw [ranIn_congr hruns]
    exact h.counted

/-- **A content is not to be had**, and nothing comes of it. -/
theorem Accounts.spoils (h : Accounts base start call e c inflow produced)
    {source : Source} {size : UInt64} {d : Staging.Delivery} {cause : FrameError}
    (hd : e.staging.materialize source size = .delivers d) (hcontent : d.content = .error cause)
    (hstaging : d.staging.Noted e'.staging) (hpast : e'.past = e.past) (hruns : e'.runs = e.runs) :
    Accounts base start call e' c inflow produced := by
  obtain ⟨hholds, hleaves⟩ := Staging.materialize_holds h.houses hd
  unfold Staging.Holds at hholds
  rw [hcontent] at hholds
  refine ⟨hstaging.houses hholds, hstaging.alike (h.alike.trans hleaves.alike), ?_, ?_, ?_⟩
  · rw [takenIn_congr hpast]
    exact h.order
  · have hsame : (c.waiting ++ inflow).map (fun r => (r, e'.staging.remaining r.content))
        = (c.waiting ++ inflow).map fun r => (r, e.staging.remaining r.content) :=
      List.map_congr_left fun a ha => by
        rw [hstaging.remaining,
          hleaves.spared _ (List.mem_map_of_mem (List.mem_append_right c.running ha))]
    rw [ranIn_congr hruns, hsame]
    exact h.runs
  · rw [ranIn_congr hruns]
    exact h.counted

end Engine

end Intake
