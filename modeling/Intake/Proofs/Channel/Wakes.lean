/-
# No wake-up is lost

A `Put` or `Take` on a `BoundedChannel` that waits sleeps until somebody tells it to look again, and
messages are sent after the channel was let go: between the change and the message others may come,
sleepers may stir, and the one who is told may find that the item it was told of is gone.  None of
this leaves a sleeper behind.

What is available to the sleepers of a condition, free places or items, is counted against those who
are about to look (`Monitor.worth`): the awake calls that wait for this condition, and the messages
to one sleeper that are still to be sent.  As long as somebody sleeps and no message to all is under
way, **there is never more available than is looked after, and nothing else has ended the wait**
(`Watched`).  A call that takes one away was one of those who looked; a call that adds one has a
message to send.

So a sleeper that could go on is never on its own (`no_lost_wakeup`): somebody who waits for the
same condition is awake, or a message to the sleepers of it is still to be sent.
-/
import Intake.Proofs.Channel.Turns

namespace Intake.Channel

variable {α : Type}

/-! ## 1. What a critical section does to what is available -/

/-- The condition of the other side. -/
def Condition.other : Condition → Condition
  | .notFull => .notEmpty
  | .notEmpty => .notFull

/-- How much there is for those who wait for a condition: free places, or items. -/
def available (c : Channel α) : Condition → Nat
  | .notFull => c.capacity.toNat - c.size.toNat
  | .notEmpty => c.size.toNat

/-- A call that may have to wait could go on: there is what it waits for, or its wait is ended. -/
def Call.Ready (c : Channel α) : Call α → Prop
  | .put _ => c.size < c.capacity ∨ c.interrupted = true ∨ c.closed = true
  | .take | .takeFor _ => 0 < c.size ∨ c.interrupted = true ∨ c.closed = true
  | .interrupt | .clearInterrupt | .close => True

variable {c : Channel α}

theorem Call.Ready.available {call : Call α} {k : Condition} (h : call.Ready c)
    (hk : call.condition? = some k) :
    0 < c.available k ∨ c.interrupted = true ∨ c.closed = true := by
  cases call with
  | put x =>
    obtain rfl := Option.some.inj hk
    exact h.imp_left fun hroom => Nat.sub_pos_of_lt (UInt32.lt_iff_toNat_lt.mp hroom)
  | take =>
    obtain rfl := Option.some.inj hk
    exact h.imp_left UInt32.lt_iff_toNat_lt.mp
  | takeFor ms =>
    obtain rfl := Option.some.inj hk
    exact h.imp_left UInt32.lt_iff_toNat_lt.mp
  | interrupt | clearInterrupt | close => cases hk

/-- What a critical section does to what is available, and whom it tells. -/
inductive Deed (c : Channel α) (call : Call α) (s : Section α) : Prop where
  /-- The call took one of what it may have had to wait for, and the other side has one more. -/
  | moved (k : Condition) (condition : call.condition? = some k)
      (notices : s.notices = [.one k.other])
      (less : s.channel.available k + 1 = c.available k)
      (more : s.channel.available k.other = c.available k.other + 1)
      (interrupted : s.channel.interrupted = c.interrupted) (closed : s.channel.closed = c.closed)
      (fits : s.channel.size ≤ s.channel.capacity)
  /-- The call went away without what it wanted. -/
  | refused (notices : s.notices = []) (channel : s.channel = c)
      (short : ∀ k, call.condition? = some k → c.available k = 0 ∨ c.closed = true)
  /-- The call ended waits. -/
  | ended (notices : s.notices = everyone) (ring : s.channel.ring = c.ring)
      (interrupted : c.interrupted = true → s.channel.interrupted = true)
  | cleared (call : call = .clearInterrupt) (notices : s.notices = [])
      (channel : s.channel = c.clearInterrupt)

/-- Bringing an item takes a free place. -/
theorem deed_of_push {x : α} {s : Section α} (hroom : c.size < c.capacity)
    (hnotices : s.notices = [.one .notEmpty])
    (hchannel : s.channel = { c with ring := c.ring.push x }) : Deed c (.put x) s := by
  have hlt : c.ring.count.toNat < c.ring.capacity.toNat := UInt32.lt_iff_toNat_lt.mp hroom
  have hsize : (c.ring.count + 1).toNat = c.ring.count.toNat + 1 := Ring.toNat_count_push hlt x
  refine .moved .notFull rfl hnotices ?_ ?_ (by rw [hchannel]) (by rw [hchannel]) ?_
  · simp only [hchannel, available, capacity, size, Ring.push, hsize]
    omega
  · simp only [hchannel, available, Condition.other, size, Ring.push, hsize]
  · simp only [hchannel, capacity, size, Ring.push, UInt32.le_iff_toNat_le, hsize]
    omega

theorem deed_of_advance {call : Call α} {s : Section α} (hfits : c.size ≤ c.capacity)
    (hpos : 0 < c.size) (hcall : call.condition? = some .notEmpty)
    (hnotices : s.notices = [.one .notFull])
    (hchannel : s.channel = { c with ring := c.ring.advance }) : Deed c call s := by
  have hsize : (c.ring.count - 1).toNat + 1 = c.ring.count.toNat :=
    Ring.toNat_count_advance (UInt32.pos_iff_ne_zero.mp hpos)
  have hle : c.ring.count.toNat ≤ c.ring.capacity.toNat := UInt32.le_iff_toNat_le.mp hfits
  refine .moved .notEmpty hcall hnotices ?_ ?_ (by rw [hchannel]) (by rw [hchannel]) ?_
  · simpa only [hchannel, available, size, Ring.advance] using hsize
  · simp only [hchannel, available, Condition.other, capacity, size, Ring.advance]
    omega
  · simp only [hchannel, capacity, size, Ring.advance, UInt32.le_iff_toNat_le]
    omega

theorem deed_of_takeSection {call : Call α} {s : Section α} (hfits : c.size ≤ c.capacity)
    (hcall : call.condition? = some .notEmpty) (hs : c.takeSection = some s) : Deed c call s := by
  rcases take_cases c with ⟨htake, -⟩ | htake | ⟨hpos, x, htake⟩
  · simp only [takeSection, htake, reduceCtorEq] at hs
  · simp only [takeSection, htake] at hs
    split at hs
    · rename_i hempty
      obtain rfl := Option.some.inj hs
      refine .refused rfl rfl fun k hk => Or.inl ?_
      obtain rfl := Option.some.inj (hcall.symm.trans hk)
      simp [available, hempty]
    · rename_i hsize
      obtain rfl := Option.some.inj hs
      exact deed_of_advance hfits (UInt32.pos_iff_ne_zero.mpr hsize) hcall rfl rfl
  · simp only [takeSection, htake] at hs
    obtain rfl := Option.some.inj hs
    exact deed_of_advance hfits hpos hcall rfl rfl

theorem of_takeSection_none (h : c.takeSection = none) :
    c.available .notEmpty = 0 ∧ c.interrupted = false ∧ c.closed = false := by
  rcases take_cases c with ⟨-, hempty, hcalm, hopen⟩ | htake | ⟨-, x, htake⟩
  · exact ⟨by simp [available, hempty], hcalm, hopen⟩
  all_goals
    simp only [takeSection, htake] at h
    grind

/-- **What a call does** to what is available, once it need not wait. -/
theorem deed_of_critical {expired : Bool} {call : Call α} {s : Section α}
    (hfits : c.size ≤ c.capacity) (hs : c.critical expired call = some s) : Deed c call s := by
  cases call with
  | put x =>
    have hshort : c.closed = true ∨ c.ring.isFull = true →
        ∀ k, (Call.put x).condition? = some k → c.available k = 0 ∨ c.closed = true := by
      rintro (hclosed | hfull) k hk
      · exact Or.inr hclosed
      · obtain rfl := Option.some.inj hk
        have heq : c.ring.count = c.ring.capacity := by simpa [Ring.isFull] using hfull
        exact Or.inl (by simp [available, capacity, size, heq])
    simp only [critical, put] at hs
    split at hs
    · cases hs
    · rename_i e he
      obtain rfl := Option.some.inj hs
      refine .refused rfl rfl (hshort ?_)
      grind
    · rename_i c' hc'
      obtain rfl := Option.some.inj hs
      have hfull : c.ring.isFull = false ∧ c' = { c with ring := c.ring.push x } := by grind
      have hne : c.size.toNat ≠ c.capacity.toNat := by
        intro heq
        have hcount : c.ring.count = c.ring.capacity := UInt32.toNat_inj.mp heq
        simp [Ring.isFull, hcount] at hfull
      have hroom : c.size < c.capacity :=
        UInt32.lt_iff_toNat_lt.mpr (lt_of_le_of_ne (UInt32.le_iff_toNat_le.mp hfits) hne)
      exact deed_of_push hroom rfl hfull.2
  | take => exact deed_of_takeSection hfits rfl hs
  | takeFor ms =>
    simp only [critical] at hs
    split at hs
    · rename_i s' hs'
      obtain rfl := Option.some.inj hs
      exact deed_of_takeSection hfits rfl hs'
    · rename_i hwaits
      split at hs
      · obtain rfl := Option.some.inj hs
        refine .refused rfl rfl fun k hk => Or.inl ?_
        obtain rfl := Option.some.inj hk
        exact (of_takeSection_none hwaits).1
      · cases hs
  | interrupt => exact Option.some.inj hs ▸ .ended rfl rfl fun _ => rfl
  | clearInterrupt => exact Option.some.inj hs ▸ .cleared rfl rfl rfl
  | close => exact Option.some.inj hs ▸ .ended rfl rfl id

/-- **A call that has to wait** finds nothing available, and nothing that ends its wait. -/
theorem of_critical_none {expired : Bool} {call : Call α} (h : c.critical expired call = none) :
    ∃ k, call.condition? = some k ∧ c.available k = 0 ∧ c.interrupted = false ∧
      c.closed = false := by
  cases call with
  | put x =>
    have hwaits : c.putReady = false := by
      simp only [critical, put] at h
      grind
    simp only [putReady, Bool.or_eq_false_iff, decide_eq_false_iff_not, UInt32.not_lt] at hwaits
    obtain ⟨⟨hfull, hcalm⟩, hopen⟩ := hwaits
    exact ⟨.notFull, rfl, Nat.sub_eq_zero_of_le (UInt32.le_iff_toNat_le.mp hfull), hcalm, hopen⟩
  | take => exact ⟨.notEmpty, rfl, of_takeSection_none h⟩
  | takeFor ms =>
    refine ⟨.notEmpty, rfl, of_takeSection_none ?_⟩
    simp only [critical] at h
    grind
  | interrupt | clearInterrupt | close => cases h

/-! ## 2. Who looks after the sleepers -/

namespace Thread

/-- The messages that a thread has still to send. -/
def notices (t : Thread α) : List Notice :=
  match t.phase with
  | .telling notices _ => notices
  | .awake | .asleep | .returned _ => []

/-- How many of what is available a thread looks after: it looks for one itself, or it tells
somebody to look. -/
def worth (k : Condition) (t : Thread α) : Nat :=
  (if Monitor.wantsChannel t ∧ t.call.condition? = some k then 1 else 0) + t.notices.count (.one k)

variable {t : Thread α} {k : Condition}

theorem phase_of_isAsleep (h : t.isAsleep = true) : t.phase = .asleep := by
  unfold isAsleep at h
  split at h
  · assumption
  · cases h

theorem notices_of_isAsleep (h : t.isAsleep = true) : t.notices = [] := by
  simp [notices, phase_of_isAsleep h]

theorem worth_of_isAsleep (h : t.isAsleep = true) : t.worth k = 0 := by
  simp [worth, notices_of_isAsleep h, Monitor.wantsChannel, phase_of_isAsleep h]

theorem sleepsOn_iff : t.sleepsOn k = true ↔ t.isAsleep = true ∧ t.call.condition? = some k := by
  simp [sleepsOn]

variable {call : Call α} {expired : Bool} {notices : List Notice} {a : Answer α}

@[simp] theorem isAsleep_awake : (⟨call, .awake, expired⟩ : Thread α).isAsleep = false := rfl

@[simp] theorem isAsleep_told : (⟨call, .told notices a, expired⟩ : Thread α).isAsleep = false := by
  unfold isAsleep Phase.told
  cases notices.isEmpty <;> rfl

@[simp] theorem notices_awake : (⟨call, .awake, expired⟩ : Thread α).notices = [] := rfl

@[simp] theorem notices_told : (⟨call, .told notices a, expired⟩ : Thread α).notices = notices := by
  unfold Thread.notices Phase.told
  cases notices <;> rfl

@[simp] theorem worth_awake : (⟨call, .awake, expired⟩ : Thread α).worth k
    = if call.condition? = some k then 1 else 0 := by
  simp [worth, Monitor.wantsChannel]

@[simp] theorem worth_told :
    (⟨call, .told notices a, expired⟩ : Thread α).worth k = notices.count (.one k) := by
  unfold worth Monitor.wantsChannel
  rw [notices_told]
  unfold Phase.told
  cases notices <;> simp

end Thread

namespace Monitor

/-- How many of what is available the threads look after. -/
def worth (m : Monitor α) (k : Condition) : Nat := (m.threads.map (Thread.worth k)).sum

/-- Somebody sleeps, and no message to all who sleep there is under way. -/
structure Unattended (m : Monitor α) (k : Condition) : Prop where
  sleeper : ∃ t ∈ m.threads, t.sleepsOn k = true
  unheard : ∀ t ∈ m.threads, .all k ∉ t.notices

/-- **Sleepers are looked after.** -/
structure Watched (m : Monitor α) : Prop where
  fits : m.channel.size ≤ m.channel.capacity
  /-- Where somebody sleeps and no message to all is under way, nothing has ended the wait, and there
  is no more than is looked after. -/
  watched : ∀ k, m.Unattended k →
    m.channel.interrupted = false ∧ m.channel.closed = false ∧ m.channel.available k ≤ m.worth k

variable {m m' : Monitor α} {i : Nat} {x y : Thread α} {k : Condition}

theorem worth_setThread (hi : m.threads[i]? = some x) (y : Thread α) :
    (m.setThread i y).worth k + x.worth k = m.worth k + y.worth k :=
  sum_set_add (Thread.worth k) hi y

/-- A thread that changes does not leave sleepers alone that were looked after, unless it falls
asleep itself or sent the message to all. -/
theorem Unattended.of_setThread (h : (m.setThread i y).Unattended k)
    (hi : m.threads[i]? = some x) (hsleeps : y.sleepsOn k = true → x.sleepsOn k = true)
    (htells : .all k ∈ x.notices → .all k ∈ y.notices) : m.Unattended k := by
  obtain ⟨before, behind, hsplit, -, hset⟩ := exists_split_at hi
  obtain ⟨⟨t, ht, hasleep⟩, hunheard⟩ := h
  simp only [setThread, hset, List.mem_append, List.mem_cons] at ht hunheard
  refine ⟨?_, fun u hu hall => ?_⟩
  · rw [hsplit]
    rcases ht with ht | rfl | ht
    · exact ⟨t, by simp [ht], hasleep⟩
    · exact ⟨x, by simp, hsleeps hasleep⟩
    · exact ⟨t, by simp [ht], hasleep⟩
  · rw [hsplit, List.mem_append, List.mem_cons] at hu
    rcases hu with hu | rfl | hu
    · exact hunheard u (Or.inl hu) hall
    · exact hunheard y (Or.inr (Or.inl rfl)) (htells hall)
    · exact hunheard u (Or.inr (Or.inr hu)) hall

/-! ## 3. Messages -/

theorem modifyThread_eq {f : Thread α → Thread α} (hi : m.threads[i]? = some x) :
    m.modifyThread i f = m.setThread i (f x) := by
  simp [modifyThread, setThread, List.modify_eq_set_getElem?, hi]

theorem exists_of_sleepsOn (h : m.sleepsOn k i = true) :
    ∃ t, m.threads[i]? = some t ∧ t.sleepsOn k = true := by
  unfold sleepsOn at h
  split at h
  · rename_i t ht
    exact ⟨t, ht, h⟩
  · cases h

/-- **A message to all** leaves no sleeper behind on its condition, and those of the other one as
they are. -/
theorem wakeAll_spec {c : Condition} (hsleeper : ∃ t ∈ (m.wakeAll c).threads, t.sleepsOn k = true) :
    c ≠ k ∧ ((m.wakeAll c).Unattended k → m.Unattended k) ∧ m.worth k ≤ (m.wakeAll c).worth k := by
  have hasleep : ∃ t ∈ m.threads, t.sleepsOn k = true ∧ c ≠ k := by
    obtain ⟨t', ht', hsleeps⟩ := hsleeper
    obtain ⟨t, ht, rfl⟩ := List.mem_map.mp ht'
    split at hsleeps
    · cases hsleeps
    · rename_i hno
      exact ⟨t, ht, hsleeps, fun hck => hno (hck ▸ hsleeps)⟩
  obtain ⟨t, ht, hsleeps, hck⟩ := hasleep
  refine ⟨hck, fun h => ⟨⟨t, ht, hsleeps⟩, fun u hu hall => ?_⟩, ?_⟩
  · refine h.unheard _ (List.mem_map_of_mem hu) ?_
    split
    · rename_i hu
      rw [Thread.notices_of_isAsleep (Thread.sleepsOn_iff.mp hu).1] at hall
      cases hall
    · exact hall
  · simp only [worth, wakeAll, List.map_map]
    refine List.sum_le_sum fun u _ => ?_
    simp only [Function.comp_apply]
    split
    · rename_i hu
      rw [Thread.worth_of_isAsleep (Thread.sleepsOn_iff.mp hu).1]
      exact Nat.zero_le _
    · exact Nat.le_refl _

/-- **A message to one** makes the sleeper that gets it look. -/
theorem wakeOne_spec {c : Condition} {j : Nat} (hj : m.sleepsOn c j = true) :
    ((m.modifyThread j Thread.wake).Unattended k → m.Unattended k) ∧
      m.worth k + [Notice.one c].count (.one k) ≤ (m.modifyThread j Thread.wake).worth k := by
  obtain ⟨t, ht, hsleeps⟩ := exists_of_sleepsOn hj
  obtain ⟨hasleep, hcall⟩ := Thread.sleepsOn_iff.mp hsleeps
  rw [modifyThread_eq ht]
  refine ⟨fun h => h.of_setThread ht (fun hwoken => by cases hwoken) (fun hall => ?_), ?_⟩
  · rw [Thread.notices_of_isAsleep hasleep] at hall
    cases hall
  · have hworth := worth_setThread (k := k) ht t.wake
    rw [Thread.worth_of_isAsleep hasleep, Thread.wake, Thread.worth_awake, hcall] at hworth
    rw [Thread.wake]
    cases c <;> cases k <;> simp_all

/-- **What a message does** for those who still sleep. -/
theorem deliver_spec {n : Notice} {chosen : Option Nat} (h : m.deliver n chosen = some m')
    (hsleeper : ∃ t ∈ m'.threads, t.sleepsOn k = true) :
    n ≠ .all k ∧ (m'.Unattended k → m.Unattended k) ∧
      m.worth k + [n].count (.one k) ≤ m'.worth k := by
  unfold deliver at h
  split at h
  · rename_i c
    obtain rfl := Option.some.inj h
    obtain ⟨hck, hunattended, hworth⟩ := wakeAll_spec hsleeper
    exact ⟨fun e => hck (Notice.all.inj e), hunattended, by simpa using hworth⟩
  · cases h
  · rename_i c j
    split at h
    · rename_i hj
      obtain rfl := Option.some.inj h
      exact ⟨nofun, wakeOne_spec hj⟩
    · cases h
  · rename_i c
    split at h
    · cases h
    · rename_i hnobody
      obtain rfl := Option.some.inj h
      obtain ⟨t, ht, hsleeps⟩ := hsleeper
      have hck : c ≠ k := by
        rintro rfl
        exact hnobody (List.any_eq_true.mpr ⟨t, ht, hsleeps⟩)
      exact ⟨nofun, id, by simp [hck]⟩

/-! ## 4. Steps -/

variable {call : Call α} {expired : Bool} {capacity : UInt32} {t : Thread α}

/-- **A critical section keeps the sleepers looked after.** -/
theorem Watched.run {s : Section α} (h : m.Watched)
    (hi : m.threads[i]? = some ⟨call, .awake, expired⟩)
    (hs : m.channel.critical expired call = some s) :
    ({ (m.setThread i ⟨call, .told s.notices s.answer, expired⟩) with
      channel := s.channel } : Monitor α).Watched := by
  have hdeed := deed_of_critical h.fits hs
  refine ⟨?_, fun k hk => ?_⟩
  · cases hdeed with
    | moved _ _ _ _ _ _ _ hfits => exact hfits
    | refused _ hchannel => exact hchannel ▸ h.fits
    | ended _ hring => simpa only [size, Channel.capacity, hring] using h.fits
    | cleared _ _ hchannel => exact hchannel ▸ h.fits
  · have hset : (m.setThread i ⟨call, .told s.notices s.answer, expired⟩).Unattended k :=
      ⟨hk.sleeper, hk.unheard⟩
    obtain ⟨hcalm, hopen, hcover⟩ := h.watched k
      (hset.of_setThread hi (fun hsleeps => by simp [Thread.sleepsOn] at hsleeps)
        (fun hall => by simp at hall))
    -- no message to all may be among those that the section leaves
    have hquiet : .all k ∉ s.notices := by
      have hlt : i < m.threads.length := (List.getElem?_eq_some_iff.mp hi).1
      simpa using hset.unheard _ (List.mem_set hlt _)
    have hworth := worth_setThread (k := k) hi ⟨call, .told s.notices s.answer, expired⟩
    rw [Thread.worth_awake, Thread.worth_told] at hworth
    show s.channel.interrupted = false ∧ s.channel.closed = false ∧
      s.channel.available k ≤ (m.setThread i _).worth k
    cases hdeed with
    | moved k' hcall hnotices hless hmore hinterrupted hclosed _ =>
      refine ⟨hinterrupted.trans hcalm, hclosed.trans hopen, ?_⟩
      rw [hcall, hnotices] at hworth
      rw [hnotices]
      cases k <;> cases k' <;> simp [Condition.other] at hworth hless hmore ⊢ <;> omega
    | refused hnotices hchannel hshort =>
      rw [hchannel]
      refine ⟨hcalm, hopen, ?_⟩
      rw [hnotices] at hworth ⊢
      by_cases hcall : call.condition? = some k
      · rcases hshort k hcall with hnone | hclosed
        · rw [hnone]
          exact Nat.zero_le _
        · rw [hopen] at hclosed
          cases hclosed
      · rw [if_neg hcall] at hworth
        exact hcover.trans hworth.ge
    | ended hnotices =>
      rw [hnotices] at hquiet
      cases k <;> simp [everyone] at hquiet
    | cleared hcall hnotices hchannel =>
      rw [hchannel]
      refine ⟨rfl, hopen, ?_⟩
      subst hcall
      rw [hnotices, Call.condition?, if_neg (Option.some_ne_none k).symm] at hworth
      rw [hnotices]
      exact hcover.trans hworth.ge

/-- **Falling asleep** leaves nobody alone: there was nothing to wait for. -/
theorem Watched.sleep (h : m.Watched) (hi : m.threads[i]? = some ⟨call, .awake, expired⟩)
    (hs : m.channel.critical expired call = none) :
    (m.setThread i ⟨call, .asleep, expired⟩).Watched := by
  obtain ⟨k', hcall, hnone, hcalm, hopen⟩ := of_critical_none hs
  refine ⟨h.fits, fun k hk => ⟨hcalm, hopen, ?_⟩⟩
  show m.channel.available k ≤ _
  by_cases hkk : k = k'
  · rw [hkk, hnone]
    exact Nat.zero_le _
  · have hcond : call.condition? ≠ some k := by
      rw [hcall]
      exact fun e => hkk (Option.some.inj e).symm
    have hbefore := hk.of_setThread hi
      (fun hsleeps => absurd (Thread.sleepsOn_iff.mp hsleeps).2 hcond) (fun hall => by simp at hall)
    have hworth := worth_setThread (k := k) hi ⟨call, .asleep, expired⟩
    rw [Thread.worth_awake, Thread.worth_of_isAsleep rfl] at hworth
    rw [if_neg hcond] at hworth
    exact (h.watched k hbefore).2.2.trans hworth.ge

/-- **A message sent** has somebody else look in its place. -/
theorem Watched.tell {n : Notice} {rest : List Notice} {a : Answer α} {chosen : Option Nat}
    (h : m.Watched) (hdeliver : m.deliver n chosen = some m')
    (hi : m'.threads[i]? = some ⟨call, .telling (n :: rest) a, expired⟩) :
    (m'.setThread i ⟨call, .told rest a, expired⟩).Watched := by
  have hchannel := (of_deliver hdeliver).1
  refine ⟨?_, fun k hk => ?_⟩
  · show m'.channel.size ≤ m'.channel.capacity
    rw [hchannel]
    exact h.fits
  · have hsleeper : ∃ t ∈ m'.threads, t.sleepsOn k = true := by
      obtain ⟨t, ht, hsleeps⟩ := hk.sleeper
      rcases List.mem_or_eq_of_mem_set ht with ht | rfl
      · exact ⟨t, ht, hsleeps⟩
      · simp [Thread.sleepsOn] at hsleeps
    obtain ⟨hother, hunattended, hworth⟩ := deliver_spec hdeliver hsleeper
    have hk' := hk.of_setThread hi (fun hsleeps => by simp [Thread.sleepsOn] at hsleeps)
      (fun hall => by
        rw [Thread.notices_told]
        rcases List.mem_cons.mp hall with e | hall
        · exact absurd e.symm hother
        · exact hall)
    obtain ⟨hcalm, hopen, hcover⟩ := h.watched k (hunattended hk')
    have hset := worth_setThread (k := k) hi ⟨call, .told rest a, expired⟩
    rw [Thread.worth_told] at hset
    have hbefore : Thread.worth k ⟨call, .telling (n :: rest) a, expired⟩
        = rest.count (.one k) + [n].count (.one k) := by
      simp [Thread.worth, wantsChannel, Thread.notices, List.count_cons]
    refine ⟨?_, ?_, ?_⟩
    · exact hchannel ▸ hcalm
    · exact hchannel ▸ hopen
    · show m'.channel.available k ≤ _
      rw [hchannel]
      omega

/-- **A sleeper that looks again** looks after one more. -/
theorem Watched.wake (h : m.Watched) (hi : m.threads[i]? = some x) (hasleep : x.isAsleep = true)
    (expired : Bool) : (m.setThread i ⟨x.call, .awake, expired⟩).Watched := by
  refine ⟨h.fits, fun k hk => ?_⟩
  have hbefore := hk.of_setThread hi (fun hsleeps => by simp [Thread.sleepsOn] at hsleeps)
    (fun hall => by
      rw [Thread.notices_of_isAsleep hasleep] at hall
      cases hall)
  obtain ⟨hcalm, hopen, hcover⟩ := h.watched k hbefore
  have hworth := worth_setThread (k := k) hi ⟨x.call, .awake, expired⟩
  rw [Thread.worth_of_isAsleep hasleep] at hworth
  exact ⟨hcalm, hopen, hcover.trans (by omega)⟩

/-- **A new call** looks for itself. -/
theorem Watched.entered (h : m.Watched) (call : Call α) : (m.entered call).Watched := by
  refine ⟨h.fits, fun k hk => ?_⟩
  have hbefore : m.Unattended k := by
    obtain ⟨⟨t, ht, hsleeps⟩, hunheard⟩ := hk
    refine ⟨?_, fun u hu => hunheard u (List.mem_append_left _ hu)⟩
    rcases List.mem_append.mp ht with ht | ht
    · exact ⟨t, ht, hsleeps⟩
    · rw [List.mem_singleton.mp ht] at hsleeps
      cases hsleeps
  obtain ⟨hcalm, hopen, hcover⟩ := h.watched k hbefore
  refine ⟨hcalm, hopen, hcover.trans ?_⟩
  simp [worth, Monitor.entered]

theorem deliver_getElem? {n : Notice} {chosen : Option Nat} (h : m.deliver n chosen = some m')
    (hi : m.threads[i]? = some x) (hawake : x.isAsleep = false) : m'.threads[i]? = some x := by
  have hno : ∀ c, x.sleepsOn c = false := fun c => by simp [Thread.sleepsOn, hawake]
  unfold deliver at h
  split at h
  · obtain rfl := Option.some.inj h
    simp [wakeAll, hi, hno]
  · cases h
  · rename_i c j
    split at h
    · rename_i hj
      obtain rfl := Option.some.inj h
      have hij : j ≠ i := by
        rintro rfl
        obtain ⟨t, ht, hsleeps⟩ := exists_of_sleepsOn hj
        rw [hi] at ht
        obtain rfl := Option.some.inj ht
        rw [hno] at hsleeps
        cases hsleeps
      simp [modifyThread, hij, hi]
    · cases h
  · split at h
    · cases h
    · obtain rfl := Option.some.inj h
      exact hi

/-- What a step of a thread, or of the world around it, is. -/
inductive Move (m : Monitor α) : Action α → Monitor α → Prop where
  | enters (call : Call α) : Move m (.enter call) (m.entered call)
  | sleeps {i : Nat} {call : Call α} {expired : Bool}
      (place : m.threads[i]? = some ⟨call, .awake, expired⟩)
      (waits : m.channel.critical expired call = none) :
      Move m (.run i) (m.setThread i ⟨call, .asleep, expired⟩)
  | runs {i : Nat} {call : Call α} {expired : Bool} {s : Section α}
      (place : m.threads[i]? = some ⟨call, .awake, expired⟩)
      (does : m.channel.critical expired call = some s) :
      Move m (.run i) { (m.setThread i ⟨call, .told s.notices s.answer, expired⟩) with
        channel := s.channel }
  | tells {i : Nat} {chosen : Option Nat} {call : Call α} {n : Notice} {rest : List Notice}
      {a : Answer α} {expired : Bool} {m' : Monitor α}
      (place : m.threads[i]? = some ⟨call, .telling (n :: rest) a, expired⟩)
      (delivers : m.deliver n chosen = some m') :
      Move m (.tell i chosen) (m'.setThread i ⟨call, .told rest a, expired⟩)
  | stirs {i : Nat} {t : Thread α} (place : m.threads[i]? = some t)
      (asleep : t.isAsleep = true) : Move m (.stir i) (m.setThread i t.wake)
  | expires {i : Nat} {t : Thread α} (place : m.threads[i]? = some t)
      (asleep : t.isAsleep = true) (timed : t.call.isTimed = true) :
      Move m (.expire i) (m.setThread i { t.wake with expired := true })

theorem move_of_next {a : Action α} (h : m.next a = some m') : Move m a m' := by
  cases a with
  | enter call => exact Option.some.inj h ▸ .enters call
  | run i =>
    simp only [Monitor.next] at h
    split at h
    · rename_i hi
      split at h
      · rename_i hs
        exact Option.some.inj h ▸ .sleeps hi hs
      · rename_i hs
        exact Option.some.inj h ▸ .runs hi hs
    · cases h
  | tell i chosen =>
    simp only [Monitor.next] at h
    split at h
    · rename_i hi
      obtain ⟨m₁, hdeliver, rfl⟩ := Option.map_eq_some_iff.mp h
      exact .tells hi hdeliver
    · cases h
  | stir i =>
    simp only [Monitor.next] at h
    split at h
    · rename_i hi
      split at h
      · rename_i hasleep
        exact Option.some.inj h ▸ .stirs hi hasleep
      · cases h
    · cases h
  | expire i =>
    simp only [Monitor.next] at h
    split at h
    · rename_i hi
      split at h
      · rename_i hlate
        obtain ⟨hasleep, htimed⟩ := Bool.and_eq_true_iff.mp hlate
        exact Option.some.inj h ▸ .expires hi hasleep htimed
      · cases h
    · cases h

/-- **No step leaves a sleeper alone.** -/
theorem Watched.next {a : Action α} (h : m.Watched) (hstep : m.next a = some m') : m'.Watched := by
  cases move_of_next hstep with
  | enters call => exact h.entered call
  | sleeps hi hs => exact h.sleep hi hs
  | runs hi hs => exact h.run hi hs
  | tells hi hdeliver => exact h.tell hdeliver (deliver_getElem? hdeliver hi rfl)
  | stirs hi hasleep => exact h.wake hi hasleep _
  | expires hi hasleep _ => exact h.wake hi hasleep true

/-- **Whatever has happened**, the sleepers are looked after. -/
theorem Watched.of_reachable (h : Reachable capacity m) : m.Watched := by
  induction h with
  | create =>
    refine ⟨UInt32.le_iff_toNat_le.mpr (Nat.zero_le _), fun k hk => ?_⟩
    obtain ⟨⟨t, ht, -⟩, -⟩ := hk
    cases ht
  | next _ hstep ih => exact ih.next hstep

/-! ## 5. Somebody looks -/

theorem exists_tell {n : Notice} {rest : List Notice} {a : Answer α}
    (hi : m.threads[i]? = some ⟨call, .telling (n :: rest) a, expired⟩) :
    ∃ chosen m', m.next (.tell i chosen) = some m' := by
  obtain ⟨chosen, m₁, hdeliver⟩ : ∃ chosen m₁, m.deliver n chosen = some m₁ := by
    cases n with
    | all c => exact ⟨none, _, rfl⟩
    | one c =>
      by_cases hsleeper : m.threads.any (fun t => t.sleepsOn c) = true
      · obtain ⟨t, ht, hsleeps⟩ := List.any_eq_true.mp hsleeper
        obtain ⟨j, hj⟩ := List.mem_iff_getElem?.mp ht
        have hone : m.sleepsOn c j = true := by simp [Monitor.sleepsOn, hj, hsleeps]
        exact ⟨some j, _, if_pos hone⟩
      · exact ⟨none, m, if_neg hsleeper⟩
  exact ⟨chosen, _, by simp only [Monitor.next, hi, hdeliver, Option.map_some]; rfl⟩

theorem exists_tell_of_mem {n : Notice} (hi : m.threads[i]? = some t) (hn : n ∈ t.notices) :
    ∃ chosen m', m.next (.tell i chosen) = some m' := by
  obtain ⟨call, phase, expired⟩ := t
  cases phase with
  | telling notices a =>
    cases notices with
    | cons n' rest => exact exists_tell hi
    | nil => cases hn
  | awake | asleep | returned a => cases hn

/-- An awake thread can have its turn, and falls asleep only if it must wait. -/
theorem exists_run (hi : m.threads[i]? = some ⟨call, .awake, expired⟩) :
    ∃ m', m.next (.run i) = some m' := by
  simp only [Monitor.next, hi]
  split
  · exact ⟨_, rfl⟩
  · exact ⟨_, rfl⟩

/-- A thread looks after the sleepers of a condition: it is awake and waits for the same, or it has
a message for them. -/
def LooksAfter (t : Thread α) (k : Condition) : Prop :=
  (t.phase = .awake ∧ t.call.condition? = some k) ∨ .one k ∈ t.notices ∨ .all k ∈ t.notices

theorem looksAfter_of_worth (h : 0 < t.worth k) : LooksAfter t k := by
  unfold Thread.worth at h
  by_cases hawake : wantsChannel t = true ∧ t.call.condition? = some k
  · refine Or.inl ⟨?_, hawake.2⟩
    obtain ⟨hphase, -⟩ := hawake
    unfold wantsChannel at hphase
    split at hphase
    · assumption
    · cases hphase
  · rw [if_neg hawake, Nat.zero_add] at h
    exact Or.inr (Or.inl (List.count_pos_iff.mp h))

/-- Where there is something that a sleeper waits for, somebody looks after the sleepers. -/
theorem Watched.exists_looksAfter (h : m.Watched) (ht : t ∈ m.threads)
    (hasleep : t.isAsleep = true) (hk : t.call.condition? = some k)
    (hready : t.call.Ready m.channel) : ∃ u ∈ m.threads, LooksAfter u k := by
  by_contra hnobody
  have hunattended : m.Unattended k :=
    ⟨⟨t, ht, Thread.sleepsOn_iff.mpr ⟨hasleep, hk⟩⟩,
      fun u hu hall => hnobody ⟨u, hu, Or.inr (Or.inr hall)⟩⟩
  obtain ⟨hcalm, hopen, hcover⟩ := h.watched k hunattended
  rcases hready.available hk with hmore | hstop | hstop
  · have hpos : 0 < m.worth k := Nat.lt_of_lt_of_le hmore hcover
    obtain ⟨w, hw, hwpos⟩ := List.exists_mem_ne_zero_of_sum_ne_zero hpos.ne'
    obtain ⟨u, hu, rfl⟩ := List.mem_map.mp hw
    exact hnobody ⟨u, hu, looksAfter_of_worth (Nat.pos_of_ne_zero hwpos)⟩
  · rw [hcalm] at hstop
    cases hstop
  · rw [hopen] at hstop
    cases hstop

theorem Reachable.follow {actions : List (Action α)} {log : List (Turn α)}
    (h : Reachable capacity m) (hrun : m.follow actions = some (m', log)) :
    Reachable capacity m' := by
  induction actions generalizing m log with
  | nil =>
    obtain ⟨rfl, -⟩ := Prod.mk.inj (Option.some.inj hrun)
    exact h
  | cons a rest ih =>
    obtain ⟨m₁, hstep, hrest⟩ := Option.bind_eq_some_iff.mp hrun
    obtain ⟨⟨m₂, later⟩, hlater, hsame⟩ := Option.map_eq_some_iff.mp hrest
    obtain ⟨rfl, -⟩ := Prod.mk.inj hsame
    exact ih (.next h hstep) hlater

/-- **No wake-up is lost.**  Let any calls come to a channel, whatever room it has, have their turns
and send their messages in any order, let sleepers stir and deadlines pass.  A sleeper that could go
on, because there is an item or a free place for it or because the channel was closed or interrupted,
would not have to wait at its next turn; and it is not on its own: somebody who waits for the same
condition is awake and can have its turn, or somebody can send the next of its messages, among which
there is one for the sleepers of this condition.

If nobody looked after it, what is available would be worth more than those who look (`Watched`),
and there would be a sleeper to whom nothing is owed. -/
theorem no_lost_wakeup (hreach : Reachable capacity m) (hi : m.threads[i]? = some t)
    (hsleeps : t.sleepsOn k = true) (hready : t.call.Ready m.channel) :
    (∃ s, m.channel.critical t.expired t.call = some s) ∧
      ∃ j u, m.threads[j]? = some u ∧
        ((u.phase = .awake ∧ u.call.condition? = some k ∧ ∃ m', m.next (.run j) = some m') ∨
          ((.one k ∈ u.notices ∨ .all k ∈ u.notices) ∧
            ∃ chosen m', m.next (.tell j chosen) = some m')) := by
  obtain ⟨hasleep, hk⟩ := Thread.sleepsOn_iff.mp hsleeps
  refine ⟨?_, ?_⟩
  · cases hs : m.channel.critical t.expired t.call with
    | some s => exact ⟨s, rfl⟩
    | none =>
      obtain ⟨k', hk', hnone, hcalm, hopen⟩ := of_critical_none hs
      have havailable := hready.available hk'
      rw [hnone, hcalm, hopen] at havailable
      simp at havailable
  · have hwatched := Watched.of_reachable hreach
    obtain ⟨u, hu, hlooks⟩ := hwatched.exists_looksAfter (List.mem_of_getElem? hi) hasleep hk hready
    obtain ⟨j, hj⟩ := List.mem_iff_getElem?.mp hu
    refine ⟨j, u, hj, ?_⟩
    obtain ⟨call, phase, expired⟩ := u
    rcases hlooks with ⟨rfl, hsame⟩ | hmessage
    · exact Or.inl ⟨rfl, hsame, exists_run hj⟩
    · exact Or.inr ⟨hmessage, hmessage.elim (exists_tell_of_mem hj) (exists_tell_of_mem hj)⟩

/-- Two calls sleep for want of an item.  One comes, and a third call is there before the message to
one of the sleepers is sent. -/
def bargingRun : List (Action Nat) :=
  [.enter .take, .run 0, .enter (.takeFor 5), .run 1, .enter (.put 7), .run 2, .enter .take]

theorem no_lost_wakeup_barging :
    ∃ m log, (create 1).follow bargingRun = some (m, log) ∧
      m.threads[1]? = some ⟨.takeFor 5, .asleep, false⟩ ∧ 0 < m.channel.size ∧
      ∃ j u, m.threads[j]? = some u ∧
        ((u.phase = .awake ∧ u.call.condition? = some .notEmpty ∧
            ∃ m', m.next (.run j) = some m') ∨
          ((.one .notEmpty ∈ u.notices ∨ .all .notEmpty ∈ u.notices) ∧
            ∃ chosen m', m.next (.tell j chosen) = some m')) := by
  have hruns : ((create 1).follow bargingRun).any (fun r =>
      r.1.threads[1]? = some ⟨.takeFor 5, .asleep, false⟩ ∧ 0 < r.1.channel.size) = true := by
    decide +kernel
  obtain ⟨⟨m, log⟩, hrun, hends⟩ := (Option.any_eq_true _ _).mp hruns
  obtain ⟨hsleeper, hitem⟩ := of_decide_eq_true hends
  have hreach := Reachable.create.follow hrun
  exact ⟨m, log, hrun, hsleeper, hitem,
    (no_lost_wakeup hreach hsleeper rfl (Or.inl hitem)).2⟩

end Monitor

end Intake.Channel
