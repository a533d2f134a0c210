/-
# Stopping a crew

A `WorkerDispatcher` that was shut down or interrupted takes no more jobs, and stays so: whoever
brings one is turned away with it (`TurnsAway`).  That is so for good only if the intake had been
opened before (`stopped_for_good`).  One that is stopped first and started afterwards opens its
intake all the same, as `Start` does not ask whether it was stopped: after an interrupt it even
takes jobs (`interrupted_then_started`), and after a shutdown it is the closed queue alone that
turns them away.
-/
import Mathlib
import Intake.Proofs.Crew.Visiting

namespace Intake.Crew

variable {Job : Type}

namespace Traffic

variable {name : Bytes} {workers : UInt32} {t t' : Traffic Job} {a : Action Job} {n : Nat}
  {v : Visit Job} {j : Job}

/-! ## 1. What it is to be stopped -/

/-- The intake has been opened by the one who starts the crew. -/
structure Opened (t : Traffic Job) : Prop where
  started : t.crew.started = true
  passed : .openIntake ∉ t.visits

/-- The visitor was told that he keeps his job, or he still has it and need not wait to go on. -/
def Refused (t : Traffic Job) (i : Nat) (j : Job) : Prop :=
  (∃ cause, t.reply? i = some (.refused j cause)) ∨
    ∃ v, t.visits[i]? = some v ∧ v.job? = some j ∧ (v.step t.crew).isSome

/-- Whoever brings a job from now on keeps it. -/
def TurnsAway (t : Traffic Job) : Prop :=
  ∀ {t₁ t₂ t₃ : Traffic Job} {j : Job}, t.LeadsTo t₁ → t₁.next (.call (.submit j)) = some t₂ →
    t₂.LeadsTo t₃ → t₃.Refused t₁.visits.length j

/-- The crew is stopped, and nothing changes that. -/
structure Final (t : Traffic Job) : Prop where
  shut : ∀ t', t.LeadsTo t' → t'.crew.accepting = false
  turnsAway : t.TurnsAway

/-! ## 2. One visit among the others -/

/-- What becomes of a visit in a step: nothing, or it takes its own step, or its deadline passes. -/
theorem visit_of_next (h : t.next a = some t') (hv : t.visits[n]? = some v) :
    t'.visits[n]? = some v ∨
      (∃ s, v.step t.crew = some s ∧ t'.crew = s.crew ∧ t'.visits[n]? = some s.visit) ∨
      ∃ ms, v = .await ms false ∧ t'.visits[n]? = some (.await ms true) := by
  have hsame : ∀ (before behind : List (Visit Job)) (w w' : Visit Job),
      t.visits = before ++ w :: behind → t'.visits = before ++ w' :: behind →
      t'.visits[n]? = some v ∨ w = v ∧ t'.visits[n]? = some w' := by
    intro before behind w w' hsplit hsplit'
    rw [hsplit] at hv
    rw [hsplit']
    by_cases hn : n = before.length
    · subst hn
      refine Or.inr ⟨?_, by simp⟩
      simpa using hv
    · refine Or.inl ?_
      rw [List.getElem?_append] at hv ⊢
      split
      · rename_i hlt
        rwa [if_pos hlt] at hv
      · rename_i hge
        rw [if_neg hge] at hv
        obtain ⟨k, hk⟩ := Nat.exists_eq_succ_of_ne_zero (by omega : n - before.length ≠ 0)
        rw [hk] at hv ⊢
        simpa using hv
  cases (move_of_next h).2 with
  | call r =>
    obtain ⟨hlt, -⟩ := List.getElem?_eq_some_iff.mp hv
    exact Or.inl ((List.getElem?_append_left hlt).trans hv)
  | advance before behind w s hsplit hs =>
    rcases hsame before behind w s.visit hsplit rfl with hstays | ⟨rfl, hgoes⟩
    · exact Or.inl hstays
    · exact Or.inr (Or.inl ⟨s, hs, rfl, hgoes⟩)
  | expire before behind ms hsplit =>
    rcases hsame before behind _ _ hsplit rfl with hstays | ⟨rfl, hgoes⟩
    · exact Or.inl hstays
    · exact Or.inr (Or.inr ⟨ms, rfl, hgoes⟩)
  | work i c o _ => exact Or.inl hv
  | finish i ending c j _ => exact Or.inl hv

/-! ## 3. What stays -/

/-- Once the crew is marked as started, only the one who is to open the intake opens it. -/
theorem shut_of_step {c : Crew Job} {s : Visit.Step Job} (h : v.step c = some s)
    (hstarted : c.started = true) (hv : v ≠ .openIntake) :
    s.crew.started = true ∧ s.visit ≠ .openIntake ∧
      (c.accepting = false → s.crew.accepting = false) := by
  cases stride_of_step h with
  | starts hno =>
    rw [hstarted] at hno
    cases hno
  | opens => exact absurd rfl hv
  | closesIntake | stopsIntake => exact ⟨hstarted, nofun, fun _ => rfl⟩
  | _ => exact ⟨hstarted, nofun, id⟩

theorem Opened.next (h : t.Opened) (hnext : t.next a = some t') :
    t'.Opened ∧ (t.crew.accepting = false → t'.crew.accepting = false) := by
  have hpassed := h.passed
  cases (move_of_next hnext).2 with
  | call r =>
    refine ⟨⟨h.started, ?_⟩, id⟩
    cases r <;> simpa [Request.visit] using hpassed
  | advance before behind v s hsplit hs =>
    rw [hsplit] at hpassed
    have hv : v ≠ .openIntake := by
      rintro rfl
      simp at hpassed
    obtain ⟨hstarted, hvisit, hshut⟩ := shut_of_step hs h.started hv
    refine ⟨⟨hstarted, ?_⟩, hshut⟩
    intro hmem
    rcases List.mem_append.mp hmem with hmem | hmem
    · exact hpassed (List.mem_append_left _ hmem)
    · rcases List.mem_cons.mp hmem with heq | hmem
      · exact hvisit heq.symm
      · exact hpassed (by simp [hmem])
  | expire before behind ms hsplit =>
    rw [hsplit] at hpassed
    exact ⟨⟨h.started, by simpa using hpassed⟩, id⟩
  | work i c o hwork =>
    cases round_of_work hwork <;> exact ⟨⟨h.started, hpassed⟩, id⟩
  | finish i ending c j hfinish =>
    obtain ⟨-, rfl⟩ := of_finish hfinish
    cases ending <;> exact ⟨⟨h.started, hpassed⟩, id⟩

theorem closed_of_next (h : t.crew.queue.closed = true) (hnext : t.next a = some t') :
    t'.crew.queue.closed = true := by
  cases (move_of_next hnext).2 with
  | call r => exact h
  | advance before behind v s hsplit hs =>
    cases stride_of_step hs with
    | queues j queue hput => exact (Channel.flags_of_put hput).1.trans h
    | closesQueue => rfl
    | _ => exact h
  | expire before behind ms hsplit => exact h
  | work i c o hwork =>
    cases round_of_work hwork with
    | takes j queue _ htake => exact (Channel.flags_of_take htake).1.trans h
    | _ => exact h
  | finish i ending c j hfinish =>
    obtain ⟨-, rfl⟩ := of_finish hfinish
    cases ending <;> exact h

theorem Reachable.closed (h : Reachable name workers t) (hv : .returned .closed ∈ t.visits) :
    t.crew.queue.closed = true := by
  refine h.keeps (P := fun t => .returned .closed ∈ t.visits → t.crew.queue.closed = true)
    (by simp [Traffic.create]) ?_ hv
  intro t a t' hp hnext hv
  by_cases htold : .returned .closed ∈ t.visits
  · exact closed_of_next (hp htold) hnext
  · cases (move_of_next hnext).2 with
    | call r =>
      rcases List.mem_append.mp hv with hv | hv
      · exact absurd hv htold
      · cases r <;> simp [Request.visit] at hv
    | advance before behind v s hsplit hs =>
      have hown : s.visit = .returned .closed := by
        rw [hsplit] at htold
        rcases List.mem_append.mp hv with hv | hv
        · exact absurd (List.mem_append_left _ hv) htold
        · rcases List.mem_cons.mp hv with heq | hv
          · exact heq.symm
          · exact absurd (by simp [hv]) htold
      cases stride_of_step hs <;> first | rfl | cases hown
    | expire before behind ms hsplit =>
      rw [hsplit] at htold
      exact absurd (by simpa using hv) htold
    | work i c o _ => exact absurd hv htold
    | finish i ending c j _ => exact absurd hv htold

/-! ## 4. Whoever brings a job -/

/-- The visitor has a job to bring, and will be turned away with it if he was not so already. -/
def TurnedBack (t : Traffic Job) (n : Nat) (j : Job) : Prop :=
  ∃ v, t.visits[n]? = some v ∧ (v = .askIntake j ∨ v = .offer j ∧ t.crew.queue.closed = true ∨
    ∃ cause, v = .returned (.refused j cause))

theorem TurnedBack.next (h : t.TurnedBack n j)
    (hstop : t.crew.accepting = false ∨ t.crew.queue.closed = true) (hnext : t.next a = some t') :
    t'.TurnedBack n j := by
  obtain ⟨v, hv, hphase⟩ := h
  rcases visit_of_next hnext hv with hsame | ⟨s, hs, hcrew, hgoes⟩ | ⟨ms, rfl, -⟩
  · refine ⟨v, hsame, ?_⟩
    rcases hphase with hask | ⟨hoffer, hclosed⟩ | htold
    · exact Or.inl hask
    · exact Or.inr (Or.inl ⟨hoffer, closed_of_next hclosed hnext⟩)
    · exact Or.inr (Or.inr htold)
  · refine ⟨s.visit, hgoes, ?_⟩
    rcases hphase with rfl | ⟨rfl, hclosed⟩ | ⟨cause, rfl⟩
    · cases stride_of_step hs with
      | comesIn _ hopen =>
        rcases hstop with hshut | hclosed
        · rw [hopen] at hshut
          cases hshut
        · exact Or.inr (Or.inl ⟨rfl, by rwa [hcrew]⟩)
      | keptOut _ _ => exact Or.inr (Or.inr ⟨_, rfl⟩)
    · cases stride_of_step hs with
      | queues _ queue hput =>
        rw [Channel.put_of_closed hclosed] at hput
        cases hput
      | refused _ cause _ => exact Or.inr (Or.inr ⟨cause, rfl⟩)
    · cases stride_of_step hs
  · rcases hphase with hask | ⟨hoffer, -⟩ | ⟨cause, htold⟩
    · cases hask
    · cases hoffer
    · cases htold

theorem TurnedBack.refused (h : t.TurnedBack n j) : t.Refused n j := by
  obtain ⟨v, hv, rfl | ⟨rfl, hclosed⟩ | ⟨cause, rfl⟩⟩ := h
  · refine Or.inr ⟨_, hv, rfl, ?_⟩
    rw [Visit.step]
    split <;> rfl
  · refine Or.inr ⟨_, hv, rfl, ?_⟩
    simp [Visit.step, Crew.offer, Channel.put_of_closed hclosed, Attempt.map]
  · exact Or.inl ⟨cause, by simp [reply?, hv, Visit.reply?]⟩

/-- **As long as the intake is shut or the queue closed, whoever brings a job keeps it.** -/
theorem turnsAway_of_kept {K : Traffic Job → Prop}
    (hkept : ∀ {t a t'}, K t → t.next a = some t' → K t')
    (hstop : ∀ {t}, K t → t.crew.accepting = false ∨ t.crew.queue.closed = true) (h : K t) :
    t.TurnsAway := by
  intro t₁ t₂ t₃ j hbefore hcall hafter
  have hfirst : K t₂ ∧ t₂.TurnedBack t₁.visits.length j := by
    refine ⟨hkept (hbefore.keeps hkept h) hcall, .askIntake j, ?_, Or.inl rfl⟩
    cases (move_of_next hcall).2 with
    | call r => exact List.getElem?_concat_length
  have hlast : K t₃ ∧ t₃.TurnedBack t₁.visits.length j := by
    refine hafter.keeps (P := fun t => K t ∧ t.TurnedBack t₁.visits.length j) ?_ hfirst
    rintro t a t' ⟨hk, hback⟩ hnext
    exact ⟨hkept hk hnext, hback.next (hstop hk) hnext⟩
  exact hlast.2.refused

/-! ## 5. Stopped for good -/

/-- The intake has been opened and is shut again. -/
structure Shut (t : Traffic Job) : Prop extends t.Opened where
  shut : t.crew.accepting = false

theorem Shut.next (h : t.Shut) (hnext : t.next a = some t') : t'.Shut := by
  obtain ⟨hopened, hshut⟩ := h.toOpened.next hnext
  exact ⟨hopened, hshut h.shut⟩

theorem Shut.final (h : t.Shut) : t.Final := by
  refine ⟨?_, turnsAway_of_kept Shut.next (fun hk => Or.inl hk.shut) h⟩
  intro t' hleads
  exact (hleads.keeps Shut.next h).shut

theorem leadsTo_first {r : Request Job} {s : Visit.Step Job} (hgoes : t.crew.aborted = false)
    (hs : r.visit.step t.crew = some s) :
    t.LeadsTo ⟨s.crew, t.visits ++ [s.visit], t.history ++ s.occurrence.toList⟩ := by
  have hcall := next_call hgoes r
  have hlast : (t.visits ++ [r.visit])[t.visits.length]? = some r.visit :=
    List.getElem?_concat_length
  have hfirst := next_advance (t := { t with visits := t.visits ++ [r.visit] }) hgoes hlast hs
  have hset : (t.visits ++ [r.visit]).set t.visits.length s.visit = t.visits ++ [s.visit] := by
    simp
  rw [hset] at hfirst
  exact ((LeadsTo.refl t).next hcall).next hfirst

/-- Whoever opens the intake opens it, whether or not somebody has stopped the crew. -/
theorem opens_of_mem (hgoes : t.crew.aborted = false) (hv : .openIntake ∈ t.visits) :
    ∃ t', t.LeadsTo t' ∧ t'.crew.accepting = true := by
  obtain ⟨i, hi⟩ := List.mem_iff_getElem?.mp hv
  exact ⟨_, (LeadsTo.refl t).next (next_advance hgoes hi rfl), rfl⟩

theorem Reachable.opens (h : Reachable name workers t) (hno : ¬ t.Opened) :
    ∃ t', t.LeadsTo t' ∧ t'.crew.accepting = true := by
  have hopening := h.opening
  cases hstarted : t.crew.started with
  | false =>
    have hgoes := (hopening.of_not_started hstarted).2.aborted
    have hmark : (Request.start : Request Job).visit.step t.crew
        = some ⟨.openIntake, t.crew.markStarted, none⟩ := by
      simp [Request.visit, Visit.step, hstarted]
    have hmarked := leadsTo_first hgoes hmark
    obtain ⟨t', hleads, hopen⟩ := opens_of_mem
      (t := ⟨t.crew.markStarted, t.visits ++ [.openIntake], t.history ++ []⟩) hgoes (by simp)
    exact ⟨t', hmarked.trans hleads, hopen⟩
  | true =>
    have hmem : .openIntake ∈ t.visits := by
      by_contra hpassed
      exact hno ⟨hstarted, hpassed⟩
    have hin : .openIntake ∈ t.starters := List.mem_filter.mpr ⟨hmem, rfl⟩
    generalize t.starters = l at hopening hin
    cases hopening with
    | opening _ hfresh => exact opens_of_mem hfresh.aborted hmem
    | fresh | counting | hiring | opened => simp at hin

/-- The visitor is about to shut the intake, or it is shut. -/
def Shutting (t : Traffic Job) (n : Nat) : Prop :=
  t.Opened ∧ (t.visits[n]? = some .closeIntake ∨ t.visits[n]? = some .stopIntake ∨
    t.crew.accepting = false)

theorem Shutting.next (h : t.Shutting n) (hnext : t.next a = some t') : t'.Shutting n := by
  obtain ⟨hopened, hphase⟩ := h
  obtain ⟨hopened', hshut⟩ := hopened.next hnext
  refine ⟨hopened', ?_⟩
  rcases hphase with hv | hv | hdone
  · rcases visit_of_next hnext hv with hsame | ⟨s, hs, hcrew, -⟩ | ⟨ms, hwait, -⟩
    · exact Or.inl hsame
    · cases stride_of_step hs with
      | closesIntake => exact Or.inr (Or.inr (by rw [hcrew]; rfl))
    · cases hwait
  · rcases visit_of_next hnext hv with hsame | ⟨s, hs, hcrew, -⟩ | ⟨ms, hwait, -⟩
    · exact Or.inr (Or.inl hsame)
    · cases stride_of_step hs with
      | stopsIntake => exact Or.inr (Or.inr (by rw [hcrew]; rfl))
    · cases hwait
  · exact Or.inr (Or.inr (hshut hdone))

theorem Opened.shutting {r : Request Job} (h : t.Opened) (hr : r = .shutdown ∨ r = .interrupt)
    (hcall : t.next (.call r) = some t') : t'.Shutting t.visits.length := by
  refine ⟨(h.next hcall).1, ?_⟩
  cases (move_of_next hcall).2 with
  | call r =>
    rcases hr with rfl | rfl
    · exact Or.inl List.getElem?_concat_length
    · exact Or.inr (Or.inl List.getElem?_concat_length)

theorem Shutting.shut (h : t.Shutting n) (htold : (t.reply? n).isSome) : t.Shut := by
  obtain ⟨hopened, hv | hv | hshut⟩ := h
  · simp [reply?, hv, Visit.reply?] at htold
  · simp [reply?, hv, Visit.reply?] at htold
  · exact ⟨hopened, hshut⟩

/-- **When a stop is for good.**  The intake stays shut, and whoever brings a job keeps it, exactly
if the intake is shut after the one who starts the crew has opened it; so it is when he had opened
it before somebody came to stop the crew, and that visit is over.  After a shutdown whoever brings a
job keeps it in any case.

The intake is opened by one step, and only the one visitor who starts the crew takes it. Behind that
step nothing opens an intake that was shut; in front of it the step can still come, whoever has
stopped the crew (`Reachable.opens`). -/
theorem stopped_for_good (h : Reachable name workers t) :
    (t.Final ↔ t.Opened ∧ t.crew.accepting = false) ∧
      (.returned .closed ∈ t.visits → t.TurnsAway) ∧
      ∀ (t₀ t₁ : Traffic Job) (r : Request Job), t₀.Opened → r = .shutdown ∨ r = .interrupt →
        t₀.next (.call r) = some t₁ → t₁.LeadsTo t → (t.reply? t₀.visits.length).isSome →
        t.Final := by
  refine ⟨⟨?_, ?_⟩, ?_, ?_⟩
  · intro hfinal
    refine ⟨?_, hfinal.shut t (LeadsTo.refl t)⟩
    by_contra hno
    obtain ⟨t', hleads, hopen⟩ := h.opens hno
    rw [hfinal.shut t' hleads] at hopen
    cases hopen
  · rintro ⟨hopened, hshut⟩
    exact Shut.final ⟨hopened, hshut⟩
  · intro htold
    exact turnsAway_of_kept closed_of_next Or.inr (h.closed htold)
  · intro t₀ t₁ r hopened hr hcall hleads htold
    exact ((hleads.keeps Shutting.next (hopened.shutting hr hcall)).shut htold).final

/-- A crew of one worker that was started and shut down then is stopped for good. -/
theorem started_then_shut_down :
    ∃ t : Traffic Nat,
      (create [] 1).follow [.call .start, .advance 0, .advance 0, .advance 0, .advance 0,
        .advance 0, .advance 0, .call .shutdown, .advance 1, .advance 1] = some t ∧
      t.reply? 1 = some .closed ∧ t.Final := by
  have hrun : (create [] 1 : Traffic Nat).follow [.call .start, .advance 0, .advance 0, .advance 0,
      .advance 0, .advance 0, .advance 0, .call .shutdown, .advance 1, .advance 1] = some _ := rfl
  have hstop := stopped_for_good (reachable_iff.mpr ⟨_, hrun⟩)
  refine ⟨_, hrun, rfl, hstop.1.mpr ⟨⟨rfl, ?_⟩, rfl⟩⟩
  decide

/-- **Stopped first and started afterwards**, a crew takes jobs: an interrupt that is over does not
keep the one who starts the crew from opening the intake, and a job that is brought then comes into
the queue. -/
theorem interrupted_then_started :
    ∃ t t' : Traffic Nat,
      (create [] 1).follow [.call .interrupt, .advance 0, .advance 0, .advance 0] = some t ∧
      t.reply? 0 = some .interrupted ∧
      t.follow [.call .start, .advance 1, .advance 1, .call (.submit 7), .advance 2, .advance 2,
        .advance 2] = some t' ∧
      t'.crew.accepting = true ∧ t'.reply? 2 = some .accepted ∧ t'.crew.queue.toList = [7] := by
  refine ⟨_, _, rfl, rfl, rfl, rfl, rfl, rfl⟩

end Traffic

end Intake.Crew
