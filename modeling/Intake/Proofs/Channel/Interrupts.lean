/-
# Waits that an interruption ends

`Interrupt` on a `BoundedChannel` raises a flag and tells every sleeper.  A sleeper that was told
looks again at its next turn, and what it sees then is the flag as it is then.  So an interruption
**ends every wait for as long as nobody lowers the flag**: no call falls asleep
(`Monitor.awake_of_next`), whoever sleeps is about to be told (`Monitor.Watched.exists_told`), and
the next turn of a call is its last (`Monitor.exists_answer`).

If `ClearInterrupt` lowers the flag between the interruption and that turn, a call that only the
flag would have let go falls asleep again (`Monitor.waits_again`), and has nothing to show that it
was ever interrupted.
-/
import Intake.Proofs.Channel.Wakes

namespace Intake.Channel

variable {α : Type}

/-! ## 1. Answers -/

/-- How a call comes to its end that may have had to wait: with its transfer done, or because the
channel was interrupted or closed, or because its deadline has passed. -/
def Call.EndsWith : Call α → Answer α → Prop
  | .put _, a => a = .accepted ∨ a = .refused .interrupted ∨ a = .refused .closed
  | .take, a => (∃ x, a = .item x) ∨ a = .blank ∨ a = .refused .interrupted ∨ a = .refused .closed
  | .takeFor _, a => (∃ x, a = .item x) ∨ a = .blank ∨ a = .refused .interrupted ∨
      a = .refused .closed ∨ a = .refused .timeout
  | .interrupt, a | .clearInterrupt, a | .close, a => a = .done

variable {c : Channel α}

theorem emptyCause_cases (c : Channel α) :
    c.emptyCause = .interrupted ∨ c.emptyCause = .closed := by
  unfold emptyCause
  split
  · exact Or.inl rfl
  · exact Or.inr rfl

theorem endsWith_of_takeSection {s : Section α} (hs : c.takeSection = some s) :
    Call.take.EndsWith s.answer := by
  rcases take_cases c with ⟨htake, -⟩ | htake | ⟨-, x, htake⟩ <;> simp only [takeSection, htake] at hs
  · cases hs
  · split at hs
    · obtain rfl := Option.some.inj hs
      rcases emptyCause_cases c with hcause | hcause
      · exact Or.inr (Or.inr (Or.inl (congrArg Answer.refused hcause)))
      · exact Or.inr (Or.inr (Or.inr (congrArg Answer.refused hcause)))
    · obtain rfl := Option.some.inj hs
      exact Or.inr (Or.inl rfl)
  · obtain rfl := Option.some.inj hs
    exact Or.inl ⟨x, rfl⟩

/-- **A turn ends a call** in one of the ways there are for it. -/
theorem endsWith_of_critical {expired : Bool} {call : Call α} {s : Section α}
    (hs : c.critical expired call = some s) : call.EndsWith s.answer := by
  cases call with
  | put x =>
    simp only [critical, put] at hs
    simp only [Call.EndsWith]
    grind
  | take => exact endsWith_of_takeSection hs
  | takeFor ms =>
    simp only [critical] at hs
    split at hs
    · rename_i s' hs'
      obtain rfl := Option.some.inj hs
      rcases endsWith_of_takeSection hs' with h | h | h | h
      · exact Or.inl h
      · exact Or.inr (Or.inl h)
      · exact Or.inr (Or.inr (Or.inl h))
      · exact Or.inr (Or.inr (Or.inr (Or.inl h)))
    · split at hs
      · obtain rfl := Option.some.inj hs
        exact Or.inr (Or.inr (Or.inr (Or.inr rfl)))
      · cases hs
  | interrupt | clearInterrupt | close => exact Option.some.inj hs ▸ rfl

theorem putReady_iff (x : α) : c.putReady = true ↔ (Call.put x).Ready c := by
  simp only [putReady, Call.Ready, size, capacity, Bool.or_eq_true, decide_eq_true_iff, or_assoc]

theorem takeReady_iff : c.takeReady = true ↔ Call.take.Ready c := by
  simp only [takeReady, Call.Ready, size, Bool.or_eq_true, decide_eq_true_iff, or_assoc]

/-- **A call that could not go on** has to wait, unless its deadline has passed. -/
theorem critical_eq_none {expired : Bool} {call : Call α} (hready : ¬ call.Ready c)
    (hlate : expired = false ∨ call.isTimed = false) : c.critical expired call = none := by
  have htaken : ¬ Call.take.Ready c → c.takeSection = none := by
    intro hready
    have hno : c.takeReady = false := Bool.eq_false_iff.mpr (mt takeReady_iff.mp hready)
    simp [takeSection, take, hno]
  cases call with
  | put x =>
    have hno : c.putReady = false := Bool.eq_false_iff.mpr (mt (putReady_iff x).mp hready)
    simp [critical, put, hno]
  | take => exact htaken hready
  | takeFor ms =>
    rcases hlate with rfl | hlate
    · simp [critical, htaken hready]
    · cases hlate
  | interrupt | clearInterrupt | close => exact absurd trivial hready

theorem interrupted_of_critical {expired : Bool} {call : Call α} {s : Section α}
    (hfits : c.size ≤ c.capacity) (hs : c.critical expired call = some s)
    (hcall : call ≠ .clearInterrupt) (hflag : c.interrupted = true) :
    s.channel.interrupted = true := by
  cases deed_of_critical hfits hs with
  | moved _ _ _ _ _ hinterrupted => exact hinterrupted.trans hflag
  | refused _ hchannel => exact hchannel ▸ hflag
  | ended _ _ hinterrupted => exact hinterrupted hflag
  | cleared hclear => exact absurd hclear hcall

/-! ## 2. While the flag is up -/

namespace Monitor

variable {m m' : Monitor α} {i j : Nat} {t t' x y : Thread α} {k : Condition} {capacity : UInt32}
  {call : Call α} {expired : Bool}

theorem getElem?_setThread_cases (h : (m.setThread i y).threads[j]? = some t) :
    t = y ∨ m.threads[j]? = some t := by
  simp only [setThread, List.getElem?_set] at h
  grind

theorem asleep_of_setThread (hy : y.isAsleep = false) (hi : (m.setThread j y).threads[i]? = some t)
    (hasleep : t.isAsleep = true) : m.threads[i]? = some t := by
  rcases getElem?_setThread_cases hi with rfl | hi
  · rw [hy] at hasleep
    cases hasleep
  · exact hi

theorem asleep_of_deliver {n : Notice} {chosen : Option Nat} (h : m.deliver n chosen = some m')
    (hi : m'.threads[i]? = some t) (hasleep : t.isAsleep = true) : m.threads[i]? = some t := by
  unfold deliver at h
  split at h
  · obtain rfl := Option.some.inj h
    obtain ⟨u, hu, rfl⟩ := Option.map_eq_some_iff.mp
      ((List.getElem?_map (i := i) (l := m.threads)).symm.trans hi)
    split at hasleep
    · cases hasleep
    · rename_i hno
      rw [if_neg hno]
      exact hu
  · cases h
  · rename_i c j
    split at h
    · rename_i hj
      obtain rfl := Option.some.inj h
      obtain ⟨u, hu, -⟩ := exists_of_sleepsOn hj
      rw [modifyThread_eq hu] at hi
      exact asleep_of_setThread rfl hi hasleep
    · cases h
  · split at h
    · cases h
    · obtain rfl := Option.some.inj h
      exact hi

/-- **Who sleeps after a step** slept before, or it had to wait at its turn. -/
theorem asleep_of_next {a : Action α} (h : m.next a = some m') (hi : m'.threads[i]? = some t)
    (hasleep : t.isAsleep = true) :
    m.threads[i]? = some t ∨
      (∃ expired, m.threads[i]? = some ⟨t.call, .awake, expired⟩ ∧
        m.channel.critical expired t.call = none) := by
  cases move_of_next h with
  | enters call =>
    rcases getElem?_concat_cases hi with hi | ⟨-, rfl⟩
    · exact Or.inl hi
    · cases hasleep
  | @sleeps j call expired hj hwaits =>
    by_cases hij : j = i
    · subst hij
      have hlt := (List.getElem?_eq_some_iff.mp hj).1
      simp only [setThread, List.getElem?_set_self hlt] at hi
      obtain rfl := Option.some.inj hi
      exact Or.inr ⟨expired, hj, hwaits⟩
    · simp only [setThread, List.getElem?_set_ne hij] at hi
      exact Or.inl hi
  | runs _ _ => exact Or.inl (asleep_of_setThread Thread.isAsleep_told hi hasleep)
  | tells _ hdeliver =>
    have hi₁ := asleep_of_setThread Thread.isAsleep_told hi hasleep
    exact Or.inl (asleep_of_deliver hdeliver hi₁ hasleep)
  | stirs _ _ => exact Or.inl (asleep_of_setThread rfl hi hasleep)
  | expires _ _ _ => exact Or.inl (asleep_of_setThread rfl hi hasleep)

theorem exists_thread_of_next {a : Action α} (h : m.next a = some m')
    (hi : m.threads[i]? = some t) : ∃ t', m'.threads[i]? = some t' ∧ t'.call = t.call := by
  have hout : m.outcomes[i]? = some (t.call, gotten? t) := by simp [outcomes, hi, outcome]
  obtain ⟨g, hg⟩ : ∃ g, m'.outcomes[i]? = some (t.call, g) := by
    have hlt := (List.getElem?_eq_some_iff.mp hout).1
    rcases next_cases h with ⟨j, call, expired, s, hj, -, -, -, houtcomes⟩ | ⟨-, -, new, houtcomes⟩
    · by_cases hij : j = i
      · subst hij
        rw [hout] at hj
        obtain ⟨rfl, -⟩ := Prod.mk.inj (Option.some.inj hj)
        exact ⟨_, by rw [houtcomes, List.getElem?_set_self hlt]⟩
      · exact ⟨_, by rw [houtcomes, List.getElem?_set_ne hij, hout]⟩
    · exact ⟨_, by rw [houtcomes, List.getElem?_append_left hlt, hout]⟩
  obtain ⟨t', ht', hsame⟩ := Option.map_eq_some_iff.mp
    ((List.getElem?_map (i := i) (l := m'.threads)).symm.trans hg)
  exact ⟨t', ht', (Prod.mk.inj hsame).1⟩

/-- A call, and a flag that is up. -/
structure Flagged (m : Monitor α) (i : Nat) (call : Call α) : Prop where
  flag : m.channel.interrupted = true
  came : ∃ t, m.threads[i]? = some t ∧ t.call = call

/-- **The flag stays up** as long as nobody has a turn that lowers it. -/
theorem Flagged.follow {actions : List (Action α)} {log : List (Turn α)} (h : m.Flagged i call)
    (hreach : Reachable capacity m) (hrun : m.follow actions = some (m', log))
    (hkeep : ∀ turn ∈ log, turn.call ≠ .clearInterrupt) : m'.Flagged i call := by
  induction actions generalizing m log with
  | nil =>
    obtain ⟨rfl, -⟩ := Prod.mk.inj (Option.some.inj hrun)
    exact h
  | cons a rest ih =>
    obtain ⟨m₁, hstep, hrest⟩ := Option.bind_eq_some_iff.mp hrun
    obtain ⟨⟨m₂, later⟩, hlater, hsame⟩ := Option.map_eq_some_iff.mp hrest
    obtain ⟨rfl, rfl⟩ := Prod.mk.inj hsame
    refine ih ⟨?_, ?_⟩ (.next hreach hstep) hlater
      fun turn hturn => hkeep turn (List.mem_append_right _ hturn)
    · rcases next_cases hstep with ⟨j, call', expired, s, -, hs, hturn, hchannel, -⟩ |
        ⟨-, hchannel, -⟩
      · have hcall := hkeep ⟨j, call', m.channel, s.answer, s.channel⟩
          (List.mem_append_left _ (by simp [hturn]))
        rw [hchannel]
        exact interrupted_of_critical (Watched.of_reachable hreach).fits hs hcall h.flag
      · rw [hchannel]
        exact h.flag
    · obtain ⟨t, ht, rfl⟩ := h.came
      exact exists_thread_of_next hstep ht

theorem Watched.exists_told (h : m.Watched) (hflag : m.channel.interrupted = true)
    (ht : t ∈ m.threads) (hsleeps : t.sleepsOn k = true) :
    ∃ u ∈ m.threads, .all k ∈ u.notices := by
  by_contra hnobody
  have hcalm := (h.watched k
    ⟨⟨t, ht, hsleeps⟩, fun u hu hall => hnobody ⟨u, hu, hall⟩⟩).1
  rw [hflag] at hcalm
  cases hcalm

/-- **While the flag is up** nobody falls asleep. -/
theorem awake_of_next {a : Action α} (hflag : m.channel.interrupted = true)
    (h : m.next a = some m') (hi : m.threads[i]? = some t) (hawake : t.isAsleep = false)
    (hi' : m'.threads[i]? = some t') : t'.isAsleep = false := by
  rw [← Bool.not_eq_true]
  intro hasleep
  rcases asleep_of_next h hi' hasleep with hsame | ⟨expired, -, hwaits⟩
  · rw [hi] at hsame
    obtain rfl := Option.some.inj hsame
    rw [hawake] at hasleep
    cases hasleep
  · obtain ⟨-, -, -, hcalm, -⟩ := of_critical_none hwaits
    rw [hflag] at hcalm
    cases hcalm

/-- **While the flag is up** the next turn of a call is its last. -/
theorem exists_answer (hflag : m.channel.interrupted = true)
    (hi : m.threads[i]? = some ⟨call, .awake, expired⟩) :
    ∃ m' a, m.next (.run i) = some m' ∧ m'.outcomes[i]? = some (call, some a) := by
  cases hs : m.channel.critical expired call with
  | none =>
    obtain ⟨-, -, -, hcalm, -⟩ := of_critical_none hs
    rw [hflag] at hcalm
    cases hcalm
  | some s =>
    have hlt := (List.getElem?_eq_some_iff.mp hi).1
    refine ⟨_, s.answer, by simp only [next, hi, hs]; rfl, ?_⟩
    simp [outcomes, setThread, hlt, outcome_told]

theorem endsWith_of_reachable (h : Reachable capacity m) :
    ∀ (i : Nat) (call : Call α) a, m.outcomes[i]? = some (call, some a) → call.EndsWith a := by
  induction h with
  | create =>
    intro i call a hi
    cases hi
  | @next m m' act _ hstep ih =>
    intro i call a hi
    rcases next_cases hstep with ⟨j, call', expired, s, -, hs, -, -, houtcomes⟩ |
      ⟨-, -, new, houtcomes⟩
    · rw [houtcomes, List.getElem?_set] at hi
      split at hi
      · split at hi
        · obtain ⟨rfl, ha⟩ := Prod.mk.inj (Option.some.inj hi)
          exact Option.some.inj ha ▸ endsWith_of_critical hs
        · cases hi
      · exact ih i call a hi
    · rw [houtcomes] at hi
      rcases List.mem_append.mp (List.mem_of_getElem? hi) with hmem | hmem
      · obtain ⟨j, hj⟩ := List.mem_iff_getElem?.mp hmem
        exact ih j call a hj
      · obtain ⟨_, -, hnone⟩ := List.mem_map.mp hmem
        cases (Prod.mk.inj hnone).2

/-! ## 3. When the flag is lowered too soon -/

theorem exists_tell_all {c : Condition} {rest : List Notice} {a : Answer α}
    (hj : m.threads[j]? = some ⟨call, .telling (.all c :: rest) a, expired⟩)
    (hi : m.threads[i]? = some t) (hij : j ≠ i) :
    ∃ m', m.next (.tell j none) = some m' ∧ m'.channel = m.channel ∧
      m'.threads[j]? = some ⟨call, .told rest a, expired⟩ ∧
      m'.threads[i]? = some (if t.sleepsOn c then t.wake else t) := by
  have hlt := (List.getElem?_eq_some_iff.mp hj).1
  refine ⟨(m.wakeAll c).setThread j ⟨call, .told rest a, expired⟩,
    by simp only [next, hj, deliver, Option.map_some], rfl, ?_, ?_⟩
  · simp [setThread, wakeAll, hlt]
  · simp [setThread, wakeAll, hij, hi]

theorem exists_clear (hi : m.threads[i]? = some t) :
    ∃ m' turn, m.follow [.enter .clearInterrupt, .run m.threads.length] = some (m', [turn]) ∧
      turn.call = .clearInterrupt ∧ m'.channel = m.channel.clearInterrupt ∧
      m'.threads[i]? = some t := by
  have hlt := (List.getElem?_eq_some_iff.mp hi).1
  have hlast : (m.entered .clearInterrupt).threads[m.threads.length]?
      = some ⟨.clearInterrupt, .awake, false⟩ := by simp [entered]
  refine ⟨{ ((m.entered .clearInterrupt).setThread m.threads.length
      ⟨.clearInterrupt, .told [] .done, false⟩) with channel := m.channel.clearInterrupt },
    ⟨m.threads.length, .clearInterrupt, m.channel, .done, m.channel.clearInterrupt⟩, ?_, rfl, rfl, ?_⟩
  · have hrun : (m.entered .clearInterrupt).next (.run m.threads.length)
        = some { ((m.entered .clearInterrupt).setThread m.threads.length
          ⟨.clearInterrupt, .told [] .done, false⟩) with
            channel := m.channel.clearInterrupt } := by
      simp only [next, hlast]
      rfl
    have hturn : (m.entered .clearInterrupt).turn? (.run m.threads.length)
        = some ⟨m.threads.length, .clearInterrupt, m.channel, .done,
          m.channel.clearInterrupt⟩ := by
      simp only [turn?, hlast]
      rfl
    have henter : m.next (.enter .clearInterrupt) = some (m.entered .clearInterrupt) := rfl
    have hnone : m.turn? (.enter .clearInterrupt) = none := rfl
    simp [Monitor.follow, henter, hnone, hrun, hturn]
  · simp [setThread, entered, List.getElem?_append_left hlt, hi]

/-- **A call that only the flag would have let go** falls asleep again, if the flag is lowered after
the sleepers were told and before the call had its turn. -/
theorem waits_again (hj : m.threads[j]? = some ⟨.interrupt, .awake, expired⟩)
    (hi : m.threads[i]? = some t) (hsleeps : t.sleepsOn k = true)
    (hready : ¬ t.call.Ready m.channel.clearInterrupt)
    (hlate : t.expired = false ∨ t.call.isTimed = false) :
    ∃ m₁ m₂ m₃ actions turn, m.next (.run j) = some m₁ ∧
      m₁.follow actions = some (m₂, [turn]) ∧ turn.call = .clearInterrupt ∧
      m₂.threads[i]? = some t.wake ∧ m₂.next (.run i) = some m₃ ∧ m₃.threads[i]? = some t := by
  obtain ⟨hasleep, hk⟩ := Thread.sleepsOn_iff.mp hsleeps
  have hij : j ≠ i := by
    rintro rfl
    rw [hi] at hj
    obtain rfl := Option.some.inj hj
    cases hasleep
  have hlt := (List.getElem?_eq_some_iff.mp hj).1
  set m₁ : Monitor α := { (m.setThread j ⟨.interrupt, .told everyone .done, expired⟩) with
    channel := m.channel.interrupt } with hm₁
  have hstep : m.next (.run j) = some m₁ := by
    simp only [next, hj]
    rfl
  have hj₁ : m₁.threads[j]? = some ⟨.interrupt, .telling everyone .done, expired⟩ := by
    simp [hm₁, setThread, hlt, Phase.told, everyone]
  have hi₁ : m₁.threads[i]? = some t := by simp [hm₁, setThread, hij, hi]
  -- the two messages
  obtain ⟨ma, hstepa, hchannela, hja, hia⟩ := exists_tell_all hj₁ hi₁ hij
  obtain ⟨mb, hstepb, hchannelb, -, hib⟩ := exists_tell_all hja hia hij
  have hwoken : mb.threads[i]? = some t.wake := by
    rw [hib]
    cases k with
    | notFull =>
      rw [if_pos hsleeps]
      exact congrArg some (if_neg Bool.false_ne_true)
    | notEmpty =>
      have hno : ¬ t.sleepsOn .notFull = true := by simp [Thread.sleepsOn, hk]
      rw [if_neg hno, if_pos hsleeps]
  -- the flag is lowered, and the call has its turn
  obtain ⟨mc, turn, hclear, hturn, hchannelc, hic⟩ := exists_clear hwoken
  have hchannel : mc.channel = m.channel.clearInterrupt := by
    rw [hchannelc, hchannelb, hchannela]
    rfl
  have hwaits : mc.channel.critical t.expired t.call = none := by
    rw [hchannel]
    exact critical_eq_none hready hlate
  have hltc := (List.getElem?_eq_some_iff.mp hic).1
  refine ⟨m₁, mc, mc.setThread i t, [.tell j none, .tell j none, .enter .clearInterrupt,
    .run mb.threads.length], turn, hstep, ?_, hturn, hic, ?_, ?_⟩
  · have htella : m₁.turn? (.tell j none) = none := rfl
    have htellb : ma.turn? (.tell j none) = none := rfl
    rw [Monitor.follow, hstepa, htella, Option.bind_some, Monitor.follow, hstepb, htellb,
      Option.bind_some, hclear]
    rfl
  · have hthread : (⟨t.call, .asleep, t.expired⟩ : Thread α) = t := by
      rw [← Thread.phase_of_isAsleep hasleep]
    simp only [next, hic, Thread.wake, hwaits, hthread]
  · simp [setThread, hltc]

/-! ## 4. Which waits an interruption ends -/

theorem flagged_of_interrupt {m₁ : Monitor α}
    (hj : m.threads[j]? = some ⟨.interrupt, .awake, expired⟩) (hstep : m.next (.run j) = some m₁)
    (hi : m.threads[i]? = some t) : m₁.Flagged i t.call := by
  refine ⟨?_, exists_thread_of_next hstep hi⟩
  simp only [next, hj, critical] at hstep
  rw [← Option.some.inj hstep]
  rfl

/-- **An interruption ends every wait until it is cleared.**  Let a call without a deadline wait while
an interruption has its turn.  Whatever happens after that, as long as nobody lowers the flag: the
call does not fall asleep once it has been told, and while it still sleeps somebody can send a message
to all who sleep there; its next turn is its last, and it comes to its end with its transfer done, or
because the channel was interrupted or closed.

But if the call has nothing to go on with other than the flag, the flag can be lowered after the call
was told and before it had its turn, and then it falls asleep again.

A call sleeps only if its turn finds the flag down. While the flag is up those who sleep are those
who slept before, and to each of them the message of the interruption is owed
(`Watched.exists_told`). The second part shows the schedule: the flag is lowered between the message
and the turn. -/
theorem interrupt_ends_waits_until_cleared {m₁ : Monitor α} (hreach : Reachable capacity m)
    (hj : m.threads[j]? = some ⟨.interrupt, .awake, expired⟩) (hstep : m.next (.run j) = some m₁)
    (hi : m.threads[i]? = some t) (hsleeps : t.sleepsOn k = true)
    (huntimed : t.call.isTimed = false) :
    (∀ actions m' log, m₁.follow actions = some (m', log) →
      (∀ turn ∈ log, turn.call ≠ .clearInterrupt) →
      ∃ t', m'.threads[i]? = some t' ∧ t'.call = t.call ∧
        (t'.isAsleep = true → ∃ j u, m'.threads[j]? = some u ∧ .all k ∈ u.notices ∧
          ∃ chosen m'', m'.next (.tell j chosen) = some m'') ∧
        (t'.isAsleep = false → ∀ a m'' t'', m'.next a = some m'' → m''.threads[i]? = some t'' →
          t''.isAsleep = false) ∧
        (t'.phase = .awake → ∃ m'' a, m'.next (.run i) = some m'' ∧
          m''.outcomes[i]? = some (t.call, some a) ∧ t.call.EndsWith a) ∧
        (∀ a, gotten? t' = some a → t.call.EndsWith a)) ∧
    (¬ t.call.Ready m.channel.clearInterrupt →
      ∃ actions m₂ m₃ turn, m₁.follow actions = some (m₂, [turn]) ∧ turn.call = .clearInterrupt ∧
        m₂.threads[i]? = some t.wake ∧ m₂.next (.run i) = some m₃ ∧ m₃.threads[i]? = some t) := by
  have hreach₁ : Reachable capacity m₁ := .next hreach hstep
  refine ⟨fun actions m' log hrun hkeep => ?_, fun hready => ?_⟩
  · obtain ⟨hflag, t', hi', hcall⟩ :=
      (flagged_of_interrupt hj hstep hi).follow hreach₁ hrun hkeep
    have hreach' := hreach₁.follow hrun
    refine ⟨t', hi', hcall, fun hasleep => ?_, fun hawake a m'' t'' => ?_, fun hawake => ?_,
      fun a hgot => ?_⟩
    · have hsleeps' : t'.sleepsOn k = true :=
        Thread.sleepsOn_iff.mpr ⟨hasleep, hcall ▸ (Thread.sleepsOn_iff.mp hsleeps).2⟩
      obtain ⟨u, hu, hall⟩ :=
        (Watched.of_reachable hreach').exists_told hflag (List.mem_of_getElem? hi') hsleeps'
      obtain ⟨j', hj'⟩ := List.mem_iff_getElem?.mp hu
      exact ⟨j', u, hj', hall, exists_tell_of_mem hj' hall⟩
    · exact fun hnext hi'' => awake_of_next hflag hnext hi' hawake hi''
    · obtain ⟨call, phase, late⟩ := t'
      obtain rfl : phase = .awake := hawake
      obtain rfl : call = t.call := hcall
      obtain ⟨m'', a, hnext, hout⟩ := exists_answer hflag hi'
      exact ⟨m'', a, hnext, hout, endsWith_of_reachable (.next hreach' hnext) i _ a hout⟩
    · refine endsWith_of_reachable hreach' i t.call a ?_
      simp [outcomes, hi', outcome, hcall, hgot]
  · obtain ⟨m₁', m₂, m₃, actions, turn, hstep', hrun, hturn, hwoken, hagain, hasleep⟩ :=
      waits_again hj hi hsleeps hready (Or.inr huntimed)
    obtain rfl := Option.some.inj (hstep.symm.trans hstep')
    exact ⟨actions, m₂, m₃, turn, hrun, hturn, hwoken, hagain, hasleep⟩

/-- A call sleeps for want of an item, and an interruption has come. -/
def waitingRun : List (Action Nat) := [.enter .take, .run 0, .enter .interrupt]

/-- Both messages are sent, and the flag is lowered before the sleeper that was told has its turn. -/
def clearedRun : List (Action Nat) :=
  [.tell 1 none, .tell 1 none, .enter .clearInterrupt, .run 2]

theorem interrupt_ends_wait_of_take :
    ∃ m log m₁, (create 1).follow waitingRun = some (m, log) ∧
      m.threads[0]? = some ⟨.take, .asleep, false⟩ ∧ m.next (.run 1) = some m₁ ∧
      ∀ actions m' log, m₁.follow actions = some (m', log) →
        (∀ turn ∈ log, turn.call ≠ .clearInterrupt) →
        ∃ t', m'.threads[0]? = some t' ∧ t'.call = .take ∧
          (t'.isAsleep = false → ∀ a m'' t'', m'.next a = some m'' → m''.threads[0]? = some t'' →
            t''.isAsleep = false) := by
  refine ⟨_, _, _, rfl, rfl, rfl, fun actions m' log hrun hkeep => ?_⟩
  have hrun₀ : (create 1).follow waitingRun = some _ := rfl
  have hreach : Reachable 1 _ := Reachable.create.follow hrun₀
  obtain ⟨t', hi', hcall, -, hawake, -⟩ :=
    (interrupt_ends_waits_until_cleared (i := 0) (j := 1) (k := .notEmpty) hreach rfl rfl rfl rfl
      rfl).1 actions m' log hrun hkeep
  exact ⟨t', hi', hcall, hawake⟩

/-- **A wait that an interruption did not end.**  A call sleeps, and an interruption has its turn and
tells everyone; the call is awake when the flag is lowered, has its turn, and falls asleep again.
Both other calls have returned by then, and nobody is left to tell the sleeper anything. -/
theorem cleared_before_the_turn :
    ∃ m log₀ m₁ m₂ log m₃, (create 1).follow waitingRun = some (m, log₀) ∧
      m.threads[0]? = some ⟨.take, .asleep, false⟩ ∧
      m.threads[1]? = some ⟨.interrupt, .awake, false⟩ ∧ m.next (.run 1) = some m₁ ∧
      m₁.follow clearedRun = some (m₂, log) ∧ m₂.threads[0]? = some ⟨.take, .awake, false⟩ ∧
      m₂.next (.run 0) = some m₃ ∧ m₃.threads[0]? = some ⟨.take, .asleep, false⟩ ∧
      m₃.answer? 1 = some .done ∧ m₃.answer? 2 = some .done ∧ m₃.pending? = none :=
  ⟨_, _, _, _, _, _, rfl, rfl, rfl, rfl, rfl, rfl, rfl, rfl, rfl, rfl, rfl⟩

end Monitor

end Intake.Channel
