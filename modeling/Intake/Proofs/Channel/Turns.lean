/-
# A channel is a queue to all who call on it

`Line` is a bounded queue as one thinks of it: a list of items, the room there is, and whether it
was interrupted or closed.  `Line.serve` says what becomes of a call.  A channel that shows a line
does with each call what the line does (`Holds.critical`), so the ring of slots behind a channel is
not to be seen by those who call on it.

Calls of `Put`, `Take`, `TakeFor` and the others run side by side on a `BoundedChannel` (`Monitor`),
and each has one turn with the channel, at which it gets its answer.  `follow` keeps the turns in
the order in which they came.  Whatever calls there are and in whatever order they have their turns,
**the items handed out are the first of those accepted, in the same order, and the others are in the
channel**; a call is refused for the reasons that a bounded queue has, and returns what its turn
came to (`turns_in_order`).

Which of the calls that wait goes on first is left open, and so is whether a call that waits goes on
at all.
-/
import Mathlib
import Intake.Channel.Monitor
import Intake.Proofs.Channel.Queue
import Intake.Proofs.Places

namespace Intake.Channel

variable {α : Type}

/-! ## 1. A bounded queue -/

/-- A bounded queue. -/
structure Line (α : Type) where
  /-- The next one to be handed out comes first. -/
  items : List α
  room : Nat
  interrupted : Bool
  closed : Bool

namespace Line

/-- The first item is handed out; where there is none one waits, unless something ends the wait. -/
def hand (l : Line α) : Option (Answer α × Line α) :=
  match l.items with
  | x :: rest => some (.item x, { l with items := rest })
  | [] =>
    if l.interrupted then some (.refused .interrupted, l)
    else if l.closed then some (.refused .closed, l)
    else none

/-- What becomes of a call, and of the line; `none` when the call waits.  An item goes in behind the
others as long as there is room, whether or not the line was interrupted. -/
def serve (l : Line α) (expired : Bool) : Call α → Option (Answer α × Line α)
  | .put x =>
    if l.closed then some (.refused .closed, l)
    else if l.items.length < l.room then some (.accepted, { l with items := l.items ++ [x] })
    else if l.interrupted then some (.refused .interrupted, l)
    else none
  | .take => l.hand
  | .takeFor _ =>
    match l.hand with
    | some r => some r
    | none => if expired then some (.refused .timeout, l) else none
  | .interrupt => some (.done, { l with interrupted := true })
  | .clearInterrupt => some (.done, { l with interrupted := false })
  | .close => some (.done, { l with closed := true })

end Line

/-! ## 2. A channel does what the queue does -/

/-- The line that a channel with these items is. -/
def line (c : Channel α) (xs : List α) : Line α := ⟨xs, c.capacity.toNat, c.interrupted, c.closed⟩

variable {c : Channel α} {xs : List α}

theorem Holds.put_fails (h : c.Holds xs) (hopen : c.closed = false)
    (hstop : c.interrupted = true) (hfull : xs.length = c.capacity.toNat) (x : α) :
    c.put x = .fails .interrupted := by
  have hcount : c.ring.count = c.ring.capacity := by
    apply UInt32.toNat_inj.mp
    rw [h.count_eq, hfull]
    rfl
  simp [put, putReady, hopen, hstop, Ring.isFull, hcount]

/-- The answer and the channel that a section leaves, with the items that are in it then. -/
def Comes (s : Section α) (r : Answer α × Line α) : Prop :=
  s.channel.Holds r.2.items ∧ r = (s.answer, s.channel.line r.2.items)

/-- **Taking an item** is handing the first one out. -/
theorem Holds.takeSection (h : c.Holds xs) :
    Option.Rel Comes c.takeSection (c.line xs).hand := by
  cases xs with
  | cons x rest =>
    obtain ⟨hgives, hrest⟩ := h.take_gives
    simp only [Channel.takeSection, hgives]
    exact .some ⟨hrest, rfl⟩
  | nil =>
    have hsize : c.size = 0 := UInt32.toNat_inj.mp h.count_eq
    cases hi : c.interrupted with
    | true =>
      have hfails := h.take_fails (Or.inr hi)
      simp only [Channel.takeSection, hfails, hsize, Line.hand, line, hi, emptyCause, if_true]
      exact .some ⟨h, by simp [line, hi]⟩
    | false =>
      cases hc : c.closed with
      | true =>
        have hfails := h.take_fails (Or.inl hc)
        simp only [Channel.takeSection, hfails, hsize, Line.hand, line, hi, hc, emptyCause, if_true,
          Bool.false_eq_true, if_false]
        exact .some ⟨h, by simp [line, hi, hc]⟩
      | false =>
        have hwaits := h.take_waits hc hi
        simp only [Channel.takeSection, hwaits, Line.hand, line, hi, hc, Bool.false_eq_true,
          if_false]
        exact .none

/-- **Bringing an item** is putting it behind the others, or being refused. -/
theorem Holds.putSection (h : c.Holds xs) (expired : Bool) (x : α) :
    Option.Rel Comes (c.critical expired (.put x)) ((c.line xs).serve expired (.put x)) := by
  cases hc : c.closed with
  | true =>
    simp only [critical, put_of_closed hc, Line.serve, line, hc, if_true]
    exact .some ⟨h, by simp [line, hc]⟩
  | false =>
    rcases Nat.lt_or_ge xs.length c.capacity.toNat with hroom | hfull
    · have hgives := h.put_gives hc hroom x
      simp only [critical, hgives, Line.serve, line, hc, hroom, if_true, Bool.false_eq_true,
        if_false]
      exact .some ⟨(h.of_put_gives hgives).1, by simp [line, capacity, Ring.push]⟩
    · have hlen : xs.length = c.capacity.toNat := Nat.le_antisymm h.length_le hfull
      cases hi : c.interrupted with
      | true =>
        simp only [critical, h.put_fails hc hi hlen, Line.serve, line, hc, hi, hlen,
          Nat.lt_irrefl, if_true, Bool.false_eq_true, if_false]
        exact .some ⟨h, by simp [line, hc, hi]⟩
      | false =>
        simp only [critical, h.put_waits hc hi hlen, Line.serve, line, hc, hi, hlen,
          Nat.lt_irrefl, Bool.false_eq_true, if_false]
        exact .none

/-- **A channel does with every call what the queue does**: both wait, or both give the same answer
and go on alike. -/
theorem Holds.critical (h : c.Holds xs) (expired : Bool) (call : Call α) :
    Option.Rel Comes (c.critical expired call) ((c.line xs).serve expired call) := by
  cases call with
  | put x => exact h.putSection expired x
  | take => exact h.takeSection
  | takeFor ms =>
    have htake := h.takeSection
    simp only [Channel.critical, Line.serve]
    generalize c.takeSection = taken, (c.line xs).hand = handed at htake ⊢
    cases htake with
    | some hcomes => exact .some hcomes
    | none =>
      cases expired with
      | true => exact .some ⟨h, rfl⟩
      | false => exact .none
  | interrupt => exact .some ⟨h, rfl⟩
  | clearInterrupt => exact .some ⟨h, rfl⟩
  | close => exact .some ⟨h, rfl⟩

/-! ## 3. Turns -/

/-- The critical section of a call. -/
structure Turn (α : Type) where
  thread : Nat
  call : Call α
  before : Channel α
  answer : Answer α
  after : Channel α

namespace Turn

/-- The item that was accepted. -/
def accepted? (t : Turn α) : Option α :=
  match t.call, t.answer with
  | .put x, .accepted => some x
  | _, _ => none

/-- The item that was handed out. -/
def handedOut? (t : Turn α) : Option α :=
  match t.answer with
  | .item x => some x
  | _ => none

/-- A call was refused for a cause, and the channel is as it was. -/
structure Refused (t : Turn α) (cause : ChannelError) : Prop where
  answer : t.answer = .refused cause
  after : t.after = t.before

/-- What can become of a call that wants an item: it gets the first one, or it is refused while there
is none. -/
def Takes (t : Turn α) : Prop :=
  (∃ x, t.answer = .item x ∧ t.before.toList = x :: t.after.toList) ∨
    (t.Refused .interrupted ∧ t.before.toList = [] ∧ t.before.interrupted = true) ∨
    (t.Refused .closed ∧ t.before.toList = [] ∧ t.before.interrupted = false ∧
      t.before.closed = true)

/-- **What can become of a call**, and what the channel is like then.  Nobody is refused for other
causes, and a refusal leaves the channel as it is. -/
def Proper (t : Turn α) : Prop :=
  match t.call with
  | .put x =>
    (t.answer = .accepted ∧ t.after.toList = t.before.toList ++ [x] ∧
        t.before.size < t.before.capacity ∧ t.before.closed = false) ∨
      (t.Refused .closed ∧ t.before.closed = true) ∨
      (t.Refused .interrupted ∧ t.before.size = t.before.capacity ∧
        t.before.interrupted = true ∧ t.before.closed = false)
  | .take => t.Takes
  | .takeFor _ =>
    t.Takes ∨ (t.Refused .timeout ∧ t.before.toList = [] ∧
      t.before.interrupted = false ∧ t.before.closed = false)
  | .interrupt | .clearInterrupt | .close =>
    t.answer = .done ∧ t.after.toList = t.before.toList

end Turn

theorem channel_of_refused {expired : Bool} {call : Call α} {s : Section α} {cause : ChannelError}
    (hs : c.critical expired call = some s) (hanswer : s.answer = .refused cause) :
    s.channel = c := by
  have htaken : ∀ s, c.takeSection = some s → s.answer = .refused cause → s.channel = c := by
    intro s hs hanswer
    unfold Channel.takeSection at hs
    split at hs
    · cases hs
    · split at hs
      · rw [← Option.some.inj hs]
      · rw [← Option.some.inj hs] at hanswer
        cases hanswer
    · rw [← Option.some.inj hs] at hanswer
      cases hanswer
  cases call with
  | put x =>
    simp only [Channel.critical] at hs
    split at hs
    · cases hs
    · rw [← Option.some.inj hs]
    · rw [← Option.some.inj hs] at hanswer
      cases hanswer
  | take => exact htaken s hs hanswer
  | takeFor ms =>
    simp only [Channel.critical] at hs
    split at hs
    · rename_i s' hs'
      obtain rfl := Option.some.inj hs
      exact htaken s' hs' hanswer
    · split at hs
      · rw [← Option.some.inj hs]
      · cases hs
  | interrupt =>
    rw [← Option.some.inj hs] at hanswer
    cases hanswer
  | clearInterrupt =>
    rw [← Option.some.inj hs] at hanswer
    cases hanswer
  | close =>
    rw [← Option.some.inj hs] at hanswer
    cases hanswer

theorem Line.of_hand {l l' : Line α} {a : Answer α} (h : l.hand = some (a, l')) :
    (∃ x, a = .item x ∧ l.items = x :: l'.items) ∨
      (a = .refused .interrupted ∧ l.items = [] ∧ l.interrupted = true) ∨
      (a = .refused .closed ∧ l.items = [] ∧ l.interrupted = false ∧ l.closed = true) := by
  unfold hand at h
  split at h
  · rename_i x rest hitems
    obtain ⟨rfl, rfl⟩ := Prod.mk.inj (Option.some.inj h)
    exact Or.inl ⟨x, rfl, hitems⟩
  · rename_i hitems
    split at h
    · rename_i hi
      obtain ⟨rfl, -⟩ := Prod.mk.inj (Option.some.inj h)
      exact Or.inr (Or.inl ⟨rfl, hitems, hi⟩)
    · rename_i hi
      split at h
      · rename_i hc
        obtain ⟨rfl, -⟩ := Prod.mk.inj (Option.some.inj h)
        exact Or.inr (Or.inr ⟨rfl, hitems, by simpa using hi, hc⟩)
      · cases h

theorem Line.of_put {l l' : Line α} {expired : Bool} {x : α} {a : Answer α}
    (h : l.serve expired (.put x) = some (a, l')) :
    (a = .refused .closed ∧ l.closed = true) ∨
      (a = .accepted ∧ l'.items = l.items ++ [x] ∧ l.items.length < l.room ∧ l.closed = false) ∨
      (a = .refused .interrupted ∧ l.room ≤ l.items.length ∧ l.interrupted = true ∧
        l.closed = false) := by
  simp only [serve] at h
  split at h
  · rename_i hc
    obtain ⟨rfl, -⟩ := Prod.mk.inj (Option.some.inj h)
    exact Or.inl ⟨rfl, hc⟩
  · rename_i hc
    have hopen : l.closed = false := by simpa using hc
    split at h
    · rename_i hroom
      obtain ⟨rfl, rfl⟩ := Prod.mk.inj (Option.some.inj h)
      exact Or.inr (Or.inl ⟨rfl, rfl, hroom, hopen⟩)
    · rename_i hfull
      split at h
      · rename_i hi
        obtain ⟨rfl, -⟩ := Prod.mk.inj (Option.some.inj h)
        exact Or.inr (Or.inr ⟨rfl, Nat.le_of_not_lt hfull, hi, hopen⟩)
      · cases h

/-- A queue that nobody takes from has nothing to hand out, and nothing ends the wait. -/
theorem Line.of_hand_none {l : Line α} (h : l.hand = none) :
    l.items = [] ∧ l.interrupted = false ∧ l.closed = false := by
  unfold hand at h
  split at h
  · cases h
  · rename_i hitems
    split at h
    · cases h
    · rename_i hi
      split at h
      · cases h
      · rename_i hc
        exact ⟨hitems, by simpa using hi, by simpa using hc⟩

theorem Line.room_of_serve {l l' : Line α} {expired : Bool} {call : Call α} {a : Answer α}
    (h : l.serve expired call = some (a, l')) : l'.room = l.room := by
  have hhand : ∀ {a l'}, l.hand = some (a, l') → l'.room = l.room := by
    intro a l' h
    unfold hand at h
    grind
  cases call with
  | put x =>
    simp only [serve] at h
    grind
  | take => exact hhand h
  | takeFor ms =>
    simp only [serve] at h
    grind
  | interrupt => exact congrArg (fun r => r.2.room) (Option.some.inj h).symm
  | clearInterrupt => exact congrArg (fun r => r.2.room) (Option.some.inj h).symm
  | close => exact congrArg (fun r => r.2.room) (Option.some.inj h).symm

theorem Holds.served {expired : Bool} {call : Call α} {s : Section α} (h : c.Holds xs)
    (hs : c.critical expired call = some s) :
    ∃ ys, s.channel.Holds ys ∧
      (c.line xs).serve expired call = some (s.answer, s.channel.line ys) := by
  have hcomes := h.critical expired call
  rw [hs] at hcomes
  generalize (c.line xs).serve expired call = served at hcomes ⊢
  obtain ⟨hholds, hr⟩ := hcomes
  exact ⟨_, hholds, congrArg some hr⟩

theorem Holds.capacity_of_critical {expired : Bool} {call : Call α} {s : Section α}
    (h : c.Holds xs) (hs : c.critical expired call = some s) :
    s.channel.capacity = c.capacity := by
  obtain ⟨ys, -, hserve⟩ := h.served hs
  exact UInt32.toNat_inj.mp (Line.room_of_serve hserve)

/-- **Every turn is a proper one.** -/
theorem Holds.proper {expired : Bool} {call : Call α} {s : Section α} (h : c.Holds xs)
    (hs : c.critical expired call = some s) (thread : Nat) :
    (⟨thread, call, c, s.answer, s.channel⟩ : Turn α).Proper := by
  obtain ⟨ys, hys, hserve⟩ := h.served hs
  have hbefore : c.toList = xs := Ring.Holds.toList_eq h
  have hafter : s.channel.toList = ys := Ring.Holds.toList_eq hys
  have hrefused : ∀ cause, s.answer = .refused cause →
      (⟨thread, call, c, s.answer, s.channel⟩ : Turn α).Refused cause :=
    fun cause hanswer => ⟨hanswer, channel_of_refused hs hanswer⟩
  have htakes : (c.line xs).hand = some (s.answer, s.channel.line ys) →
      (⟨thread, call, c, s.answer, s.channel⟩ : Turn α).Takes := by
    intro hhand
    rcases Line.of_hand hhand with ⟨x, hanswer, hitems⟩ | ⟨hanswer, hitems, hi⟩ |
      ⟨hanswer, hitems, hi, hc⟩
    · exact Or.inl ⟨x, hanswer, hbefore.trans (hitems.trans (congrArg _ hafter.symm))⟩
    · exact Or.inr (Or.inl ⟨hrefused _ hanswer, hbefore.trans hitems, hi⟩)
    · exact Or.inr (Or.inr ⟨hrefused _ hanswer, hbefore.trans hitems, hi, hc⟩)
  have hdone : ∀ interrupted closed,
      some (.done, ⟨xs, c.capacity.toNat, interrupted, closed⟩)
        = some (s.answer, s.channel.line ys) →
      s.answer = .done ∧ s.channel.toList = c.toList := by
    intro interrupted closed hsame
    obtain ⟨hanswer, hline⟩ := Prod.mk.inj (Option.some.inj hsame)
    have hitems : xs = ys := congrArg Line.items hline
    exact ⟨hanswer.symm, hafter.trans (hitems.symm.trans hbefore.symm)⟩
  cases call with
  | put x =>
    rcases Line.of_put hserve with ⟨hanswer, hc⟩ | ⟨hanswer, hitems, hroom, hc⟩ |
      ⟨hanswer, hfull, hi, hc⟩
    · exact Or.inr (Or.inl ⟨hrefused _ hanswer, hc⟩)
    · refine Or.inl ⟨hanswer, ?_, h.count_lt_iff.mpr hroom, hc⟩
      show s.channel.toList = c.toList ++ [x]
      rw [hafter, hbefore]
      exact hitems
    · refine Or.inr (Or.inr ⟨hrefused _ hanswer, ?_, hi, hc⟩)
      apply UInt32.toNat_inj.mp
      show c.ring.count.toNat = c.capacity.toNat
      rw [h.count_eq]
      exact Nat.le_antisymm h.length_le hfull
  | take => exact htakes hserve
  | takeFor ms =>
    simp only [Line.serve] at hserve
    split at hserve
    · rename_i r hhand
      exact Or.inl (htakes (hhand.trans hserve))
    · rename_i hhand
      split at hserve
      · obtain ⟨hanswer, -⟩ := Prod.mk.inj (Option.some.inj hserve)
        refine Or.inr ⟨hrefused _ hanswer.symm, ?_⟩
        obtain ⟨hitems, hi, hc⟩ := Line.of_hand_none hhand
        exact ⟨hbefore.trans hitems, hi, hc⟩
      · cases hserve
  | interrupt => exact hdone _ _ hserve
  | clearInterrupt => exact hdone _ _ hserve
  | close => exact hdone _ _ hserve

/-! ## 4. Turns in order -/

namespace Monitor

/-- The answer that a call has got, which it may not have returned yet. -/
def gotten? (t : Thread α) : Option (Answer α) :=
  match t.phase with
  | .awake | .asleep => none
  | .telling _ a | .returned a => some a

/-- A call, and what it got so far. -/
def outcome (t : Thread α) : Call α × Option (Answer α) := (t.call, gotten? t)

/-- The calls that came, and what they got so far. -/
def outcomes (m : Monitor α) : List (Call α × Option (Answer α)) := m.threads.map outcome

/-- The turn that a step is. -/
def turn? (m : Monitor α) : Action α → Option (Turn α)
  | .run i =>
    match m.threads[i]? with
    | some ⟨call, .awake, expired⟩ =>
      (m.channel.critical expired call).map fun s => ⟨i, call, m.channel, s.answer, s.channel⟩
    | _ => none
  | _ => none

/-- What a row of steps leads to, and the turns on the way. -/
def follow (m : Monitor α) : List (Action α) → Option (Monitor α × List (Turn α))
  | [] => some (m, [])
  | a :: rest =>
    (m.next a).bind fun m' => (m'.follow rest).map fun r => (r.1, (m.turn? a).toList ++ r.2)

variable {m m' : Monitor α}

theorem outcomes_setThread {i : Nat} {t : Thread α} (hi : m.outcomes[i]? = some (outcome t)) :
    (m.setThread i t).outcomes = m.outcomes := by
  refine List.ext_getElem? fun j => ?_
  simp only [outcomes, setThread, List.map_set, List.getElem?_set] at hi ⊢
  split
  · rename_i hij
    split
    · exact (hij ▸ hi).symm
    · rename_i hlt
      rw [List.getElem?_eq_none (by omega)]
  · rfl

theorem outcome_of_isAsleep {t : Thread α} (h : t.isAsleep = true) :
    outcome t = (t.call, none) ∧ outcome t.wake = (t.call, none) := by
  unfold Thread.isAsleep at h
  unfold outcome gotten? Thread.wake
  split at h
  · rename_i hphase
    exact ⟨by simp [hphase], rfl⟩
  · cases h

theorem outcome_wake {t : Thread α} {c : Condition} (h : t.sleepsOn c = true) :
    outcome t.wake = outcome t := by
  obtain ⟨hsleeps, hwoken⟩ := outcome_of_isAsleep (Bool.and_eq_true_iff.mp h).1
  exact hwoken.trans hsleeps.symm

theorem of_deliver {n : Notice} {chosen : Option Nat} (h : m.deliver n chosen = some m') :
    m'.channel = m.channel ∧ m'.outcomes = m.outcomes := by
  unfold deliver at h
  split at h
  · rename_i c
    obtain rfl := Option.some.inj h
    refine ⟨rfl, ?_⟩
    simp only [outcomes, wakeAll, List.map_map]
    refine List.map_congr_left fun t _ => ?_
    show outcome (if t.sleepsOn c then t.wake else t) = outcome t
    split
    · rename_i hsleeps
      exact outcome_wake hsleeps
    · rfl
  · cases h
  · rename_i c j
    split at h
    · rename_i hsleeps
      obtain rfl := Option.some.inj h
      refine ⟨rfl, List.ext_getElem? fun k => ?_⟩
      simp only [outcomes, modifyThread, List.getElem?_map, List.getElem?_modify, sleepsOn]
        at hsleeps ⊢
      split
      · rename_i hjk
        subst hjk
        cases hj : m.threads[j]? with
        | none => rfl
        | some t =>
          rw [hj] at hsleeps
          exact congrArg some (outcome_wake hsleeps)
      · simp
    · cases h
  · split at h
    · cases h
    · obtain rfl := Option.some.inj h
      exact ⟨rfl, rfl⟩

theorem outcome_told (call : Call α) (notices : List Notice) (a : Answer α) (expired : Bool) :
    outcome ⟨call, .told notices a, expired⟩ = (call, some a) := by
  unfold outcome gotten? Phase.told
  cases notices.isEmpty <;> rfl

/-- **What a step is**: a turn, a new call, or neither. -/
theorem next_cases {a : Action α} (h : m.next a = some m') :
    (∃ i call expired s, m.outcomes[i]? = some (call, none) ∧
        m.channel.critical expired call = some s ∧
        m.turn? a = some ⟨i, call, m.channel, s.answer, s.channel⟩ ∧
        m'.channel = s.channel ∧ m'.outcomes = m.outcomes.set i (call, some s.answer)) ∨
      (m.turn? a = none ∧ m'.channel = m.channel ∧
        ∃ new : List (Call α), m'.outcomes = m.outcomes ++ new.map fun call => (call, none)) := by
  have hsame : m'.channel = m.channel → m'.outcomes = m.outcomes →
      m'.channel = m.channel ∧
        ∃ new : List (Call α), m'.outcomes = m.outcomes ++ new.map fun call => (call, none) :=
    fun hchannel houtcomes => ⟨hchannel, [], by simpa using houtcomes⟩
  cases a with
  | enter call =>
    obtain rfl := Option.some.inj h
    exact Or.inr ⟨rfl, rfl, [call], by simp [outcomes, entered, outcome, gotten?]⟩
  | run i =>
    simp only [next] at h
    split at h
    · rename_i call expired hi
      have hout : m.outcomes[i]? = some (call, none) := by simp [outcomes, hi, outcome, gotten?]
      split at h
      · rename_i hwaits
        obtain rfl := Option.some.inj h
        refine Or.inr ⟨by simp [turn?, hi, hwaits], hsame rfl ?_⟩
        exact outcomes_setThread hout
      · rename_i s hs
        obtain rfl := Option.some.inj h
        refine Or.inl ⟨i, call, expired, s, hout, hs, by simp [turn?, hi, hs], rfl, ?_⟩
        simp only [outcomes, setThread, List.map_set, outcome_told]
    · cases h
  | tell i chosen =>
    simp only [next] at h
    split at h
    · rename_i call n rest answer expired hi
      obtain ⟨m₁, hdeliver, rfl⟩ := Option.map_eq_some_iff.mp h
      obtain ⟨hchannel, houtcomes⟩ := of_deliver hdeliver
      refine Or.inr ⟨rfl, hsame hchannel ((outcomes_setThread ?_).trans houtcomes)⟩
      rw [houtcomes, outcome_told]
      simp [outcomes, hi, outcome, gotten?]
    · cases h
  | stir i =>
    simp only [next] at h
    split at h
    · rename_i t hi
      split at h
      · rename_i hasleep
        obtain rfl := Option.some.inj h
        obtain ⟨hsleeps, hwoken⟩ := outcome_of_isAsleep hasleep
        refine Or.inr ⟨rfl, hsame rfl (outcomes_setThread ?_)⟩
        simp [outcomes, hi, hsleeps, hwoken]
      · cases h
    · cases h
  | expire i =>
    simp only [next] at h
    split at h
    · rename_i t hi
      split at h
      · rename_i hasleep
        obtain rfl := Option.some.inj h
        obtain ⟨hsleeps, hwoken⟩ := outcome_of_isAsleep (Bool.and_eq_true_iff.mp hasleep).1
        refine Or.inr ⟨rfl, hsame rfl (outcomes_setThread ?_)⟩
        have hlate : outcome { t.wake with expired := true } = outcome t.wake := rfl
        simp [outcomes, hi, hlate, hsleeps, hwoken]
      · cases h
    · cases h

/-! ## 5. What the turns come to -/

/-- What the turns so far tell of the calls and of the channel. -/
structure Told (capacity : UInt32) (m : Monitor α) (log : List (Turn α)) : Prop where
  /-- The channel is in order. -/
  holds : ∃ xs, m.channel.Holds xs
  capacity_eq : m.channel.capacity = if capacity = 0 then 1 else capacity
  /-- What was accepted was handed out, or is in the channel. -/
  items : log.filterMap Turn.accepted? = log.filterMap Turn.handedOut? ++ m.channel.toList
  proper : ∀ t ∈ log, t.Proper
  /-- Nobody has two turns. -/
  nodup : (log.map Turn.thread).Nodup
  /-- Who had a turn has the answer. -/
  given : ∀ t ∈ log, m.outcomes[t.thread]? = some (t.call, some t.answer)
  /-- Who has an answer had a turn. -/
  gotten : ∀ i call a, m.outcomes[i]? = some (call, some a) →
    ∃ t ∈ log, t.thread = i ∧ t.call = call ∧ t.answer = a

end Monitor

/-- What a turn does to the items: it adds what it accepted behind them, and takes what it handed
out from their front. -/
theorem Turn.Proper.items {t : Turn α} (h : t.Proper) :
    t.before.toList ++ t.accepted?.toList = t.handedOut?.toList ++ t.after.toList := by
  have hrefused : ∀ cause, t.Refused cause →
      t.before.toList ++ t.accepted?.toList = t.handedOut?.toList ++ t.after.toList := by
    intro cause ⟨hanswer, hafter⟩
    simp [accepted?, handedOut?, hanswer, hafter]
  have htakes : t.Takes →
      t.before.toList ++ t.accepted?.toList = t.handedOut?.toList ++ t.after.toList := by
    rintro (⟨x, hanswer, hitems⟩ | ⟨href, -⟩ | ⟨href, -⟩)
    · simp [accepted?, handedOut?, hanswer, hitems]
    · exact hrefused _ href
    · exact hrefused _ href
  unfold Proper at h
  split at h
  · rename_i x hcall
    rcases h with ⟨hanswer, hitems, -⟩ | ⟨href, -⟩ | ⟨href, -⟩
    · simp [accepted?, handedOut?, hcall, hanswer, hitems]
    · exact hrefused _ href
    · exact hrefused _ href
  · exact htakes h
  · rcases h with h | ⟨href, -⟩
    · exact htakes h
    · exact hrefused _ href
  all_goals simp [accepted?, handedOut?, h.1, h.2]

namespace Monitor

variable {capacity : UInt32} {m m' : Monitor α} {log : List (Turn α)}

/-- **A step keeps what the turns tell.** -/
theorem Told.next {a : Action α} (h : Told capacity m log) (hstep : m.next a = some m') :
    Told capacity m' (log ++ (m.turn? a).toList) := by
  rcases next_cases hstep with ⟨i, call, expired, s, hi, hs, hturn, hchannel, houtcomes⟩ |
    ⟨hturn, hchannel, new, houtcomes⟩
  · obtain ⟨xs, hxs⟩ := h.holds
    obtain ⟨ys, hys, -⟩ := hxs.served hs
    have hproper := hxs.proper hs i
    set turn : Turn α := ⟨i, call, m.channel, s.answer, s.channel⟩ with hturn_eq
    have hlt : i < m.outcomes.length := (List.getElem?_eq_some_iff.mp hi).1
    have hset : m'.outcomes[i]? = some (call, some s.answer) := by
      rw [houtcomes, List.getElem?_set_self hlt]
    have hother : ∀ j, i ≠ j → m'.outcomes[j]? = m.outcomes[j]? := by
      intro j hij
      rw [houtcomes, List.getElem?_set_ne hij]
    have hfirst : ∀ t ∈ log, i ≠ t.thread := by
      intro t ht hit
      have hgiven := h.given t ht
      rw [← hit, hi] at hgiven
      cases hgiven
    rw [hturn, Option.toList_some]
    refine ⟨⟨ys, hchannel ▸ hys⟩, ?_, ?_, ?_, ?_, ?_, ?_⟩
    · rw [hchannel, hxs.capacity_of_critical hs, h.capacity_eq]
    · have hitems := hproper.items
      have hone : ∀ pick : Turn α → Option α, [turn].filterMap pick = (pick turn).toList := by
        intro pick
        cases hpick : pick turn <;> simp [hpick]
      rw [List.filterMap_append, List.filterMap_append, hone, hone, h.items, List.append_assoc,
        List.append_assoc, hchannel]
      exact congrArg _ hitems
    · intro t ht
      rcases List.mem_append.mp ht with ht | ht
      · exact h.proper t ht
      · rwa [List.mem_singleton.mp ht]
    · rw [List.map_append, List.nodup_append]
      refine ⟨h.nodup, List.nodup_singleton _, ?_⟩
      intro j hj k hk
      obtain ⟨t, ht, rfl⟩ := List.mem_map.mp hj
      rw [List.mem_singleton.mp hk]
      exact (hfirst t ht).symm
    · intro t ht
      rcases List.mem_append.mp ht with ht | ht
      · rw [hother _ (hfirst t ht)]
        exact h.given t ht
      · rw [List.mem_singleton.mp ht]
        exact hset
    · intro j call' a' hj
      by_cases hij : i = j
      · subst hij
        rw [hset] at hj
        obtain ⟨rfl, ha⟩ := Prod.mk.inj (Option.some.inj hj)
        exact ⟨turn, List.mem_append_right _ (List.mem_singleton_self _), rfl, rfl,
          Option.some.inj ha⟩
      · rw [hother j hij] at hj
        obtain ⟨t, ht, hsame⟩ := h.gotten j call' a' hj
        exact ⟨t, List.mem_append_left _ ht, hsame⟩
  · rw [hturn, Option.toList_none, List.append_nil]
    refine ⟨hchannel ▸ h.holds, hchannel ▸ h.capacity_eq, hchannel ▸ h.items, h.proper, h.nodup,
      ?_, ?_⟩
    · intro t ht
      have hgiven := h.given t ht
      rw [houtcomes, List.getElem?_append_left (List.getElem?_eq_some_iff.mp hgiven).1]
      exact hgiven
    · intro j call a' hj
      rw [houtcomes] at hj
      rcases Nat.lt_or_ge j m.outcomes.length with hlt | hge
      · rw [List.getElem?_append_left hlt] at hj
        exact h.gotten j call a' hj
      · rw [List.getElem?_append_right hge, List.getElem?_map] at hj
        obtain ⟨_, -, hnone⟩ := Option.map_eq_some_iff.mp hj
        cases (Prod.mk.inj hnone).2

/-- **A run keeps what the turns tell.** -/
theorem Told.follow {actions : List (Action α)} {more : List (Turn α)} (h : Told capacity m log)
    (hrun : m.follow actions = some (m', more)) : Told capacity m' (log ++ more) := by
  induction actions generalizing m log more with
  | nil =>
    obtain ⟨rfl, rfl⟩ := Prod.mk.inj (Option.some.inj hrun)
    simpa using h
  | cons a rest ih =>
    rw [Monitor.follow] at hrun
    obtain ⟨m₁, hstep, hrest⟩ := Option.bind_eq_some_iff.mp hrun
    obtain ⟨⟨m₂, later⟩, hlater, hsame⟩ := Option.map_eq_some_iff.mp hrest
    obtain ⟨rfl, rfl⟩ := Prod.mk.inj hsame
    have htold := ih (h.next hstep) hlater
    rwa [List.append_assoc] at htold

theorem told_create (hcap : capacity.toNat ≤ Ring.widest) :
    Told capacity (create capacity : Monitor α) [] where
  holds := ⟨[], holds_create hcap⟩
  capacity_eq := rfl
  items := (Ring.Holds.toList_eq (holds_create hcap)).symm
  proper := by simp
  nodup := List.nodup_nil
  given := by simp
  gotten := fun i call a hi => by cases hi

/-- **Turns in order.**  Let any calls come to a channel and have their turns in any order.  The items
handed out so far are the first ones of those accepted, each of them once and in the same order, and
the rest of them is in the channel, which never holds more than its capacity.  Every turn was a proper
one: a call that brings an item is refused only by a closed channel, or by a full one that was
interrupted; a call that wants one is refused only while there is none.  Each call has one turn at
most, keeps its item if it was refused, and returns what the turn came to.  And where there is room
in a channel that is not closed, or an item in a channel, the turn of a call is not put off, whether
the channel was interrupted or not.

The ring shows a list, and each turn does with the ring what a queue does with the list
(`Ring.Holds`); what the log tells is carried along with it (`Told`). -/
theorem turns_in_order {actions : List (Action α)} (hcap : capacity.toNat ≤ Ring.widest)
    (hrun : (create capacity).follow actions = some (m, log)) :
    log.filterMap Turn.accepted? = log.filterMap Turn.handedOut? ++ m.channel.toList ∧
    m.channel.size.toNat = m.channel.toList.length ∧
    m.channel.capacity = (if capacity = 0 then 1 else capacity) ∧
    m.channel.size ≤ m.channel.capacity ∧
    (∀ t ∈ log, t.Proper) ∧
    (log.map Turn.thread).Nodup ∧
    (∀ t ∈ log, m.outcomes[t.thread]? = some (t.call, some t.answer)) ∧
    (∀ i call a, m.outcomes[i]? = some (call, some a) →
      ∃ t ∈ log, t.thread = i ∧ t.call = call ∧ t.answer = a) ∧
    (m.channel.closed = false → m.channel.size < m.channel.capacity → ∀ expired x,
      ∃ s, m.channel.critical expired (.put x) = some s ∧ s.answer = .accepted) ∧
    (∀ x rest, m.channel.toList = x :: rest → ∀ expired call,
      call = .take ∨ (∃ ms, call = .takeFor ms) →
        ∃ s, m.channel.critical expired call = some s ∧ s.answer = .item x) := by
  have htold : Told capacity m log := (told_create hcap).follow hrun
  obtain ⟨xs, hxs⟩ := htold.holds
  have hlist : m.channel.toList = xs := Ring.Holds.toList_eq hxs
  have hsize : m.channel.size.toNat = xs.length := hxs.count_eq
  refine ⟨htold.items, hlist ▸ hsize, htold.capacity_eq, ?_, htold.proper, htold.nodup,
    htold.given, htold.gotten, ?_, ?_⟩
  · rw [UInt32.le_iff_toNat_le, hsize]
    exact hxs.length_le
  · intro hopen hroom expired x
    have hgives := hxs.put_gives hopen (hxs.count_lt_iff.mp hroom) x
    refine ⟨⟨.accepted, [.one .notEmpty], { m.channel with ring := m.channel.ring.push x }⟩, ?_, rfl⟩
    simp only [critical, hgives]
  · intro x rest hitems expired call hcall
    obtain rfl : xs = x :: rest := hlist.symm.trans hitems
    obtain ⟨s, hs, hanswer⟩ : ∃ s, m.channel.takeSection = some s ∧ s.answer = .item x := by
      obtain ⟨hgives, -⟩ := hxs.take_gives
      simp only [takeSection, hgives]
      exact ⟨_, rfl, rfl⟩
    rcases hcall with rfl | ⟨ms, rfl⟩
    · exact ⟨s, hs, hanswer⟩
    · refine ⟨s, ?_, hanswer⟩
      simp only [critical, hs]

/-- In a channel for two items a third one waits; the channel is interrupted, and the third one is
turned away.  A fourth one finds room after one was taken, and all of them are taken after the channel
was closed. -/
def interruptedRun : List (Action Nat) :=
  [.enter (.put 1), .run 0, .enter (.put 2), .run 1, .enter (.put 3), .run 2, .enter .interrupt,
    .run 3, .tell 3 none, .run 2, .enter .take, .run 4, .enter (.put 4), .run 5, .enter .close,
    .run 6, .enter (.takeFor 5), .run 7, .enter .take, .run 8, .enter .take, .run 9]

theorem turns_in_order_interrupted :
    ∃ m log, (create 2).follow interruptedRun = some (m, log) ∧
      log.filterMap Turn.handedOut? = [1, 2, 4] ∧
      log.filterMap Turn.accepted? = [1, 2, 4] ++ m.channel.toList ∧ m.channel.toList = [] ∧
      (∀ t ∈ log, t.Proper) ∧
      ∃ t ∈ log, t.thread = 2 ∧ t.call = .put 3 ∧ t.answer = .refused .interrupted := by
  have hruns : ((create 2).follow interruptedRun).any (fun r =>
      r.2.filterMap Turn.handedOut? = [1, 2, 4] ∧ r.1.channel.toList = [] ∧
        r.1.outcomes[2]? = some (.put 3, some (.refused .interrupted))) = true := by
    decide +kernel
  obtain ⟨⟨m, log⟩, hrun, hends⟩ := (Option.any_eq_true _ _).mp hruns
  obtain ⟨hhanded, hempty, hrefused⟩ := of_decide_eq_true hends
  obtain ⟨hitems, -, -, -, hproper, -, -, hgotten, -⟩ := turns_in_order (by decide) hrun
  exact ⟨m, log, hrun, hhanded, hhanded ▸ hitems, hempty, hproper, hgotten _ _ _ hrefused⟩

end Monitor

end Intake.Channel
