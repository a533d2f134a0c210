/-
# Accounts of a staging area

Whatever is done with a `Materializer` and its pool (`Household`), and wherever a stream or a file
fails, **the buffers that are out are those of live contents and those held for themselves, the
temporary files are those of live contents, and so are the paths on the list, and the counters count
the contents that were made** (`accounts_balance`).

`Balanced` is what every deed keeps: the staging area houses the live contents and what is held, and
nothing else; what is not live is hollow.  A place of the household is given another content with
the old one let go of (`Balanced.replaced`), and a payload that came to nothing has left nothing
behind (`Balanced.failed`).
-/
import Mathlib
import Intake.Proofs.Places
import Intake.Proofs.Staging.Household

namespace Intake.Staging

open scoped List

variable {base : Host} {s s' : Staging} {live : List Content} {made : List Content.Kind}
  {d : Delivery}

/-! ## 1. What is in use -/

/-- A staging area that works as another one, but for waits that may end. -/
structure Sized (s s' : Staging) : Prop where
  bufferSize : s'.pool.bufferSize = s.pool.bufferSize
  capacity : s'.pool.capacity = s.pool.capacity
  threshold : s'.threshold = s.threshold

theorem Alike.sized (h : s.Alike s') : s.Sized s' :=
  ⟨h.pool.bufferSize, h.pool.capacity, h.threshold⟩

/-- **Letting go of what is at a place**: a live content is let go of, and any other is nothing. -/
theorem Houses.vacate {place : Content × Bool}
    (h : s.Houses base ((Household.live? place).toList ++ live))
    (hhollow : place.2 = false → place.1.IsHollow) :
    (s.release place.1).Houses base live ∧ s.Alike (s.release place.1) := by
  obtain ⟨c, alive⟩ := place
  cases alive with
  | false =>
    rw [release_of_hollow (hhollow rfl)]
    exact ⟨h, .refl s⟩
  | true =>
    obtain ⟨hhouses, halike, -⟩ := Houses.release (c := c) h
    exact ⟨hhouses, halike⟩

/-- A buffer that was taken out, as a content. -/
def keep (h : Handle) : Content := .buffered h 0 0

theorem Houses.holding (h : s.Houses base live) {b : Nat} {pool : Pool}
    (hacq : s.pool.acquire = .gives (b, pool)) :
    ({ s with pool } : Staging).Houses base (keep ⟨some b⟩ :: live) ∧
      s.Alike { s with pool } := by
  obtain ⟨free, hlends, hfree⟩ := h.buffers
  obtain ⟨rest, rfl, hlends', halike, -⟩ := hlends.of_acquire hacq
  refine ⟨⟨⟨rest, hlends', ?_⟩, h.files, ?_⟩, ⟨halike, rfl, rfl⟩⟩
  · show (rest ++ b :: _).Perm (List.range pool.capacity.toNat)
    rw [halike.capacity]
    exact List.perm_middle.trans hfree
  · intro c hc
    rcases List.mem_cons.mp hc with rfl | hc
    · exact Or.inl rfl
    · exact h.held c hc

theorem Houses.waits (h : s.Houses base live) (interrupted : Bool) :
    ({ s with pool := { s.pool with free := { s.pool.free with interrupted } } } : Staging).Houses
      base live := by
  obtain ⟨free, hlends, hfree⟩ := h.buffers
  exact ⟨⟨free, ⟨hlends.holds, hlends.opened, hlends.length_memory, hlends.counted⟩, hfree⟩,
    h.files, h.held⟩

namespace Household

theorem zip_set {α β : Type} (xs : List α) (ys : List β) (i : Nat) (x : α) (y : β) :
    (xs.set i x).zip (ys.set i y) = (xs.zip ys).set i (x, y) := by
  induction xs generalizing ys i with
  | nil => simp
  | cons a xs ih =>
    cases ys with
    | nil => simp
    | cons b ys =>
      cases i with
      | zero => rfl
      | succ i => simp [ih]

/-- What everything that is done keeps: the staging area houses the live contents and what is held
for itself, and the counters count what was made. -/
structure Balanced (base : Host) (capacity : UInt32) (s : Household) : Prop where
  houses : s.staging.Houses base (s.live ++ s.slots.held.map keep)
  hollow : ∀ place ∈ s.places, place.2 = false → place.1.IsHollow
  length_eq : s.alive.length = s.slots.contents.length
  tallied : s.staging.Tallied s.made
  fits : s.staging.threshold ≤ s.staging.pool.bufferSize
  capacity_eq : s.staging.pool.capacity = capacity

section Balanced

variable {capacity : UInt32} {s s' : Household} {i j : Nat}

theorem Balanced.place (h : s.Balanced base capacity) (hi : i < s.slots.contents.length) :
    s.places[i]? = some (s.slots.get i, s.alive.getD i false) := by
  have hi' : i < s.alive.length := h.length_eq ▸ hi
  rw [places, List.getElem?_zip_eq_some]
  simp [Slots.get, List.getD_eq_getElem?_getD, hi, hi']

theorem Balanced.restaged (h : s.Balanced base capacity)
    (hhouses : s'.staging.Houses base (s.live ++ s'.slots.held.map keep))
    (hsized : s.staging.Sized s'.staging) (htallied : s'.staging.Tallied s'.made)
    (hcontents : s'.slots.contents = s.slots.contents) (halive : s'.alive = s.alive) :
    s'.Balanced base capacity := by
  have hplaces : s'.places = s.places := by rw [places, places, hcontents, halive]
  refine ⟨?_, ?_, ?_, htallied, ?_, hsized.capacity.trans h.capacity_eq⟩
  · rw [live, hplaces]
    exact hhouses
  · rw [hplaces]
    exact h.hollow
  · rw [halive, hcontents]
    exact h.length_eq
  · rw [hsized.bufferSize, hsized.threshold]
    exact h.fits

/-- **A place is given another content**, with the old one let go of. -/
theorem Balanced.replaced {staging : Staging} {c : Content} {alive : Bool}
    (h : s.Balanced base capacity) (hi : i < s.slots.contents.length)
    (hhouses : staging.Houses base ((live? (c, alive)).toList ++ (s.live ++ s.slots.held.map keep)))
    (hsized : s.staging.Sized staging) (hhollow : alive = false → c.IsHollow)
    (hstaging : s'.staging = staging.release (s.slots.get i))
    (htallied : s'.staging.Tallied s'.made)
    (hcontents : s'.slots.contents = s.slots.contents.set i c)
    (hheld : s'.slots.held = s.slots.held) (halive : s'.alive = s.alive.set i alive) :
    s'.Balanced base capacity := by
  have hplace := h.place hi
  obtain ⟨others, hbefore, hafter⟩ := exists_others live? hplace
  have hplaces : s'.places = s.places.set i (c, alive) := by
    rw [places, places, hcontents, halive, zip_set]
  have hmore : staging.Houses base ((live? (s.slots.get i, s.alive.getD i false)).toList ++
      ((live? (c, alive)).toList ++ others ++ s.slots.held.map keep)) := by
    refine hhouses.perm ?_
    calc
      (live? (c, alive)).toList ++ (s.live ++ s.slots.held.map keep)
          ~ (live? (c, alive)).toList ++ (((live? (s.slots.get i, s.alive.getD i false)).toList ++
              others) ++ s.slots.held.map keep) := (hbefore.append_right _).append_left _
      _ = (live? (c, alive)).toList ++ (live? (s.slots.get i, s.alive.getD i false)).toList ++
            (others ++ s.slots.held.map keep) := by simp only [List.append_assoc]
      _ ~ (live? (s.slots.get i, s.alive.getD i false)).toList ++ (live? (c, alive)).toList ++
            (others ++ s.slots.held.map keep) := List.perm_append_comm.append_right _
      _ = _ := by simp only [List.append_assoc]
  obtain ⟨hleft, halike⟩ := hmore.vacate (h.hollow _ (List.mem_of_getElem? hplace))
  have hsized' : s.staging.Sized s'.staging := by
    rw [hstaging]
    exact ⟨halike.pool.bufferSize.trans hsized.bufferSize,
      halike.pool.capacity.trans hsized.capacity, halike.threshold.trans hsized.threshold⟩
  refine ⟨?_, ?_, ?_, htallied, ?_, hsized'.capacity.trans h.capacity_eq⟩
  · rw [hstaging, live, hplaces, hheld]
    exact hleft.perm ((hafter (c, alive)).symm.append_right _)
  · rw [hplaces]
    intro place hmem hdead
    rcases List.mem_or_eq_of_mem_set hmem with hmem | rfl
    · exact h.hollow place hmem hdead
    · exact hhollow hdead
  · rw [halive, hcontents, List.length_set, List.length_set]
    exact h.length_eq
  · rw [hsized'.bufferSize, hsized'.threshold]
    exact h.fits

theorem Balanced.failed {start staging : Staging} {e : FrameError} (h : s.Balanced base capacity)
    (hstart : s.staging.Noted start) (hd : start.Delivers d) (hnoted : d.staging.Noted staging)
    (hfailed : d.content = .error e) (hstaging : s'.staging = staging)
    (hcontents : s'.slots.contents = s.slots.contents) (hheld : s'.slots.held = s.slots.held)
    (halive : s'.alive = s.alive) (hmade : s'.made = s.made) : s'.Balanced base capacity := by
  obtain ⟨hholds, hleaves⟩ := hd.holds (hstart.houses h.houses)
  have htallied := hnoted.tallied (hd.tallied (hstart.tallied h.tallied))
  unfold Holds at hholds
  rw [hfailed] at hholds
  simp only [Delivery.kinds, hfailed, List.append_nil] at htallied
  refine h.restaged ?_ ?_ ?_ hcontents halive
  · rw [hstaging, hheld]
    exact hnoted.houses hholds
  · rw [hstaging]
    exact (hnoted.alike ((hstart.alike (.refl _)).trans hleaves.alike)).sized
  · rw [hstaging, hmade]
    exact htallied

/-- **A payload that became a content** takes the place of what was in its slot. -/
theorem Balanced.brought {start staging : Staging} {c : Content} (h : s.Balanced base capacity)
    (hi : i < s.slots.contents.length) (hstart : s.staging.Noted start) (hd : start.Delivers d)
    (hnoted : d.staging.Noted staging) (hc : d.content = .ok c)
    (hstaging : s'.staging = staging.release (s.slots.get i))
    (hcontents : s'.slots.contents = s.slots.contents.set i c)
    (hheld : s'.slots.held = s.slots.held) (halive : s'.alive = s.alive.set i true)
    (hmade : s'.made = s.made ++ [c.kind]) : s'.Balanced base capacity := by
  obtain ⟨hholds, hleaves⟩ := hd.holds (hstart.houses h.houses)
  obtain ⟨hbuffered, hspilled⟩ := hnoted.tallied (hd.tallied (hstart.tallied h.tallied))
  unfold Holds at hholds
  rw [hc] at hholds
  simp only [Delivery.kinds, hc] at hbuffered hspilled
  have hmore : staging.Houses base
      ((live? (c, true)).toList ++ (s.live ++ s.slots.held.map keep)) := hnoted.houses hholds
  refine h.replaced hi hmore ?_ (fun e => by cases e) hstaging ?_ hcontents hheld halive
  · exact (hnoted.alike ((hstart.alike (.refl _)).trans hleaves.alike)).sized
  · rw [hstaging, hmade]
    exact ⟨hbuffered, hspilled⟩

/-- What a payload makes of the slots: its content replaces what was in a slot, or it leaves them as
they are. -/
def Placed (slots : Slots) (i : Nat) (d : Delivery) (result : Except FrameError Unit)
    (slots' : Slots) : Prop :=
  let after : Slots := { slots with staging := d.staging, source := d.source }
  match d.content with
  | .ok c => result = .ok () ∧ slots' = after.replace i c
  | .error e => result = .error e ∧ slots' = after

theorem of_put {way : Slots.Way} {size : UInt64} {slots slots' : Slots}
    {result : Except FrameError Unit} {consumed : UInt64}
    (h : slots.put way i size = .finished result consumed slots') :
    ∃ d, slots.staging.Delivers d ∧ Placed slots i d result slots' := by
  unfold Slots.put at h
  simp only at h
  split at h
  · cases h
  · cases h
  · rename_i d hstep
    refine ⟨d, ?_, ?_⟩
    · cases way with
      | bySize => exact .bySize hstep
      | buffer => exact .buffer hstep
      | spill => exact Step.delivers.inj hstep ▸ .spill _ _
    · unfold Placed
      cases hcontent : d.content with
      | ok c =>
        rw [hcontent] at h
        obtain ⟨rfl, -, rfl⟩ := Slots.Outcome.finished.inj h
        exact ⟨rfl, rfl⟩
      | error e =>
        rw [hcontent] at h
        obtain ⟨rfl, -, rfl⟩ := Slots.Outcome.finished.inj h
        exact ⟨rfl, rfl⟩

theorem of_readContent (t : Frame.Session) (h : Frame.Header) :
    ((∃ h', (t.readContent h).1 = .waits h') ∧ (t.readContent h).2.staging = t.staging) ∨
      (t.readContent h).1 = .overflows ∨
      ∃ d, t.staging.Delivers d ∧ d.staging.Noted (t.readContent h).2.staging ∧
        ((∃ r, (t.readContent h).1 = .record r ∧ d.content = .ok r.content) ∨
          ∃ e, (t.readContent h).1 = .failed e ∧ d.content = .error e) := by
  cases hd : t.staging.materialize t.reader.source h.rawSize with
  | waits =>
    have hread : t.readContent h = (.waits h, t) := by simp only [Frame.Session.readContent, hd]
    rw [hread]
    exact Or.inl ⟨⟨h, rfl⟩, rfl⟩
  | overflows =>
    have hread : t.readContent h = (.overflows, t) := by simp only [Frame.Session.readContent, hd]
    rw [hread]
    exact Or.inr (Or.inl rfl)
  | delivers d =>
    refine Or.inr (Or.inr ?_)
    obtain ⟨s', hreceived, ⟨c, hc, -, hread⟩ | ⟨e, he, -, hread⟩⟩ :=
      Frame.Session.readContent_of_delivers hd
    · rw [hread]
      exact ⟨d, .bySize hd, hreceived.staging, Or.inl ⟨_, rfl, hc⟩⟩
    · rw [hread]
      exact ⟨d, .bySize hd, hreceived.staging, Or.inr ⟨e, rfl, he⟩⟩

/-- What a call for the next record comes to, as far as the staging area goes. -/
theorem of_next (t : Frame.Session) :
    (((∃ h, t.next.1 = .waits h) ∨ ∃ exit : Frame.Exit, t.next.1 = exit.outcome) ∧
        t.staging.Noted t.next.2.staging) ∨
      t.next.1 = .overflows ∨
      ∃ start d, t.staging.Noted start ∧ start.Delivers d ∧ d.staging.Noted t.next.2.staging ∧
        ((∃ r, t.next.1 = .record r ∧ d.content = .ok r.content) ∨
          ∃ e, t.next.1 = .failed e ∧ d.content = .error e) := by
  unfold Frame.Session.next
  split
  · exact Or.inl ⟨Or.inr ⟨.failed _, rfl⟩, .refl _⟩
  · rcases Frame.Session.readHeader_cases (s := t)
      (l := ⟨t.reader.maxMetadata, 0, 0, Nat.zero_le _⟩) rfl with
      ⟨t', hheader, hmoved, -, -⟩ | ⟨t', n, m, hheader, hmoved, -⟩
    · have hstart : t.staging.Noted t'.staging := hmoved.staging
      rw [hheader]
      rcases of_readContent t' _ with ⟨hwaits, hstaging⟩ | hover | ⟨d, hd, hnoted, hcontent⟩
      · exact Or.inl ⟨Or.inl hwaits, hstaging ▸ hstart⟩
      · exact Or.inr (Or.inl hover)
      · exact Or.inr (Or.inr ⟨t'.staging, d, hstart, hd, hnoted, hcontent⟩)
    · rw [hheader]
      exact Or.inl ⟨Or.inr ⟨_, rfl⟩, hmoved.staging⟩

theorem Balanced.settle {r : Nat} {reading : Reading} {called : Frame.Outcome × Frame.Session}
    (h : s.Balanced base capacity) (hi : i < s.slots.contents.length)
    (hcalled : (((∃ h, called.1 = .waits h) ∨ ∃ exit : Frame.Exit, called.1 = exit.outcome) ∧
        s.staging.Noted called.2.staging) ∨
      called.1 = .overflows ∨
      ∃ start d, s.staging.Noted start ∧ start.Delivers d ∧ d.staging.Noted called.2.staging ∧
        ((∃ r, called.1 = .record r ∧ d.content = .ok r.content) ∨
          ∃ e, called.1 = .failed e ∧ d.content = .error e))
    (hstep : s.settle r reading i called = some s') : s'.Balanced base capacity := by
  obtain ⟨outcome, session⟩ := called
  rcases hcalled with ⟨hquiet, hnoted⟩ | hover | ⟨start, d, hstart, hd, hnoted, hcontent⟩
  · have hsame : s'.staging = session.staging ∧ s'.slots.contents = s.slots.contents ∧
        s'.slots.held = s.slots.held ∧ s'.alive = s.alive ∧ s'.made = s.made := by
      rcases hquiet with ⟨h', rfl⟩ | ⟨e | _, rfl⟩ <;>
      · obtain rfl := Option.some.inj hstep
        exact ⟨rfl, rfl, rfl, rfl, rfl⟩
    obtain ⟨hstaging, hcontents, hheld, halive, hmade⟩ := hsame
    refine h.restaged ?_ ?_ ?_ hcontents halive
    · rw [hstaging, hheld]
      exact hnoted.houses h.houses
    · rw [hstaging]
      exact (hnoted.alike (.refl _)).sized
    · rw [hstaging, hmade]
      exact hnoted.tallied h.tallied
  · obtain rfl : outcome = .overflows := hover
    cases hstep
  · rcases hcontent with ⟨record, hrecord, hc⟩ | ⟨e, hfailed, he⟩
    · obtain rfl : outcome = .record record := hrecord
      obtain rfl := Option.some.inj hstep
      refine h.brought hi hstart hd hnoted hc rfl rfl rfl rfl ?_
      show s.made ++ [_] = s.made ++ [_]
      simp [Slots.get, Slots.replace, List.getD_eq_getElem?_getD, hi]
    · obtain rfl : outcome = .failed e := hfailed
      obtain rfl := Option.some.inj hstep
      exact h.failed hstart hd hnoted he rfl rfl rfl rfl rfl

theorem Balanced.hold {slots : Slots} (h : s.Balanced base capacity)
    (hgives : s.slots.hold = .gives slots) : ({ s with slots } : Household).Balanced base capacity := by
  unfold Slots.hold at hgives
  cases hacq : s.slots.staging.pool.acquire with
  | waits => simp [hacq, Attempt.map] at hgives
  | fails e => simp [hacq, Attempt.map] at hgives
  | gives r =>
    simp only [hacq, Attempt.map, Attempt.gives.injEq] at hgives
    subst hgives
    obtain ⟨hmore, halike⟩ := h.houses.holding hacq
    refine h.restaged (hmore.perm ?_) halike.sized ⟨h.tallied.buffered, h.tallied.spilled⟩ rfl rfl
    rw [List.map_append]
    exact (List.perm_append_singleton _ _).symm.trans (by rw [List.append_assoc]; exact .refl _)

theorem Balanced.drop {handle : Handle} (h : s.Balanced base capacity)
    (hj : s.slots.held[j]? = some handle) :
    ({ s with slots := { s.slots.giveBack handle with held := s.slots.held.eraseIdx j } } :
      Household).Balanced base capacity := by
  obtain ⟨hlt, rfl⟩ := List.getElem?_eq_some_iff.mp hj
  have hheld : s.slots.held.map keep
      ~ keep s.slots.held[j] :: (s.slots.held.eraseIdx j).map keep :=
    (List.getElem_cons_eraseIdx_perm hlt).symm.map keep
  have hmore := h.houses.perm ((hheld.append_left s.live).trans List.perm_middle)
  obtain ⟨hleft, halike, -⟩ := hmore.release
  exact h.restaged hleft halike.sized ⟨h.tallied.buffered, h.tallied.spilled⟩ rfl rfl

theorem Balanced.read (h : s.Balanced base capacity)
    (hi : s.alive[i]? = some true ∨ s.slots.get i = .none) (n : Nat) :
    ({ s with slots := (s.slots.read i n).2 } : Household).Balanced base capacity := by
  have hcontents : (s.slots.read i n).2.contents
      = s.slots.contents.set i (s.staging.read (s.slots.get i) n).2 := rfl
  by_cases halive : s.alive[i]? = some true
  · have hlt : i < s.slots.contents.length := h.length_eq ▸ (List.getElem?_eq_some_iff.mp halive).1
    have hplace := h.place hlt
    have htrue : s.alive.getD i false = true := by simp [List.getD_eq_getElem?_getD, halive]
    rw [htrue] at hplace
    obtain ⟨others, hbefore, hafter⟩ := exists_others live? hplace
    have hsame : s.alive.set i true = s.alive :=
      (List.getElem?_eq_some_iff.mp halive).2 ▸ List.set_getElem_self _
    have hplaces : ({ s with slots := (s.slots.read i n).2 } : Household).places
        = s.places.set i ((s.staging.read (s.slots.get i) n).2, true) := by
      rw [places, hcontents, places, ← zip_set, hsame]
    have hlive := (h.houses.perm (hbefore.append_right _)).read n
    have hthere : (s.staging.read (s.slots.get i) n).2 :: others
        ~ (s.places.set i ((s.staging.read (s.slots.get i) n).2, true)).filterMap live? :=
      (hafter (_, true)).symm
    refine ⟨?_, ?_, ?_, h.tallied, h.fits, h.capacity_eq⟩
    · rw [live, hplaces]
      exact hlive.perm (hthere.append_right _)
    · rw [hplaces]
      intro place hmem hdead
      rcases List.mem_or_eq_of_mem_set hmem with hmem | rfl
      · exact h.hollow place hmem hdead
      · cases hdead
    · rw [hcontents, List.length_set]
      exact h.length_eq
  · have hnone : s.slots.get i = .none := hi.resolve_left halive
    refine h.restaged h.houses (Alike.refl _).sized h.tallied ?_ rfl
    rw [hcontents, hnone]
    refine List.ext_getElem? fun k => ?_
    rw [List.getElem?_set]
    split
    · rename_i hik
      subst hik
      split
      · rename_i hlt
        have hgot : s.slots.contents[i] = .none := by
          simpa [Slots.get, List.getD_eq_getElem?_getD, hlt] using hnone
        rw [List.getElem?_eq_getElem hlt, hgot]
        rfl
      · rename_i hge
        rw [List.getElem?_eq_none (Nat.le_of_not_lt hge)]
    · rfl

/-- **A content that is moved** takes the place of what was there, and leaves nothing behind. -/
theorem Balanced.move (h : s.Balanced base capacity) (hi : i < s.slots.contents.length)
    (hj : j < s.slots.contents.length) (hne : i ≠ j) :
    ({ s with
      slots := s.slots.move i j
      alive := (s.alive.set i (s.alive.getD j false)).set j false } : Household).Balanced base
        capacity := by
  have hmove : s.slots.move i j = { s.slots with
      staging := s.staging.release (s.slots.get i)
      contents := (s.slots.contents.set i (s.slots.get j)).set j (s.slots.get j).afterMove } := by
    rw [Slots.move, if_neg hne]
    rfl
  have hplaces : ({ s with
      slots := s.slots.move i j
      alive := (s.alive.set i (s.alive.getD j false)).set j false } : Household).places
      = (s.places.set i (s.slots.get j, s.alive.getD j false)).set j
          ((s.slots.get j).afterMove, false) := by
    rw [places, hmove, places, zip_set, zip_set]
  have htarget := h.place hi
  have horigin : (s.places.set i (s.slots.get j, s.alive.getD j false))[j]?
      = some (s.slots.get j, s.alive.getD j false) :=
    (List.getElem?_set_ne hne).trans (h.place hj)
  obtain ⟨others, hbefore, hbetween⟩ := exists_others live? htarget
  obtain ⟨others', hbetween', hafter⟩ := exists_others live? horigin
  have hsame : others ~ others' :=
    (List.perm_append_left_iff _).mp ((hbetween _).symm.trans hbetween')
  have hmore : s.staging.Houses base ((live? (s.slots.get i, s.alive.getD i false)).toList ++
      (others ++ s.slots.held.map keep)) :=
    h.houses.perm ((hbefore.append_right _).trans (by rw [List.append_assoc]))
  obtain ⟨hleft, halike⟩ := hmore.vacate (h.hollow _ (List.mem_of_getElem? htarget))
  have hthere : others' ~ ((s.places.set i (s.slots.get j, s.alive.getD j false)).set j
      ((s.slots.get j).afterMove, false)).filterMap live? := (hafter (_, false)).symm
  refine ⟨?_, ?_, ?_, ?_, ?_, ?_⟩
  · rw [live, hplaces]
    show Houses base (s.slots.move i j).staging (_ ++ (s.slots.move i j).held.map keep)
    rw [hmove]
    exact hleft.perm ((hsame.trans hthere).append_right _)
  · rw [hplaces]
    intro place hmem hdead
    rcases List.mem_or_eq_of_mem_set hmem with hmem | rfl
    · rcases List.mem_or_eq_of_mem_set hmem with hmem | rfl
      · exact h.hollow place hmem hdead
      · exact h.hollow _ (List.mem_of_getElem? (h.place hj)) hdead
    · exact Content.isHollow_afterMove _
  · rw [hmove]
    simp only [List.length_set]
    exact h.length_eq
  · rw [staging, hmove]
    exact ⟨h.tallied.buffered, h.tallied.spilled⟩
  · rw [staging, hmove]
    show (s.staging.release (s.slots.get i)).threshold
      ≤ (s.staging.release (s.slots.get i)).pool.bufferSize
    rw [halike.threshold, halike.pool.bufferSize]
    exact h.fits
  · rw [staging, hmove]
    exact halike.pool.capacity.trans h.capacity_eq

/-- A payload that is put into a slot keeps the balance, whatever comes of it. -/
theorem Balanced.put {way : Slots.Way} {k : Nat} {size : UInt64} (h : s.Balanced base capacity)
    (hstep : s.next (.put way i k size) = some s') : s'.Balanced base capacity := by
  simp only [Household.next] at hstep
  split at hstep
  · rename_i hguard
    obtain ⟨source, -, hput⟩ := Option.bind_eq_some_iff.mp hstep
    split at hput
    · cases hput
    · cases hput
    · rename_i hfinished
      obtain ⟨d, hd, hplaced⟩ := of_put hfinished
      obtain rfl := Option.some.inj hput
      unfold Placed at hplaced
      split at hplaced
      · rename_i c hc
        obtain ⟨-, rfl⟩ := hplaced
        refine h.brought hguard.1 (.refl _) hd (.refl _) hc rfl rfl rfl rfl ?_
        simp [madeAt, Slots.get, Slots.replace, List.getD_eq_getElem?_getD, hguard.1]
      · obtain ⟨habsurd, -⟩ := hplaced
        cases habsurd
    · rename_i hfinished
      obtain ⟨d, hd, hplaced⟩ := of_put hfinished
      obtain rfl := Option.some.inj hput
      unfold Placed at hplaced
      split at hplaced
      · obtain ⟨habsurd, -⟩ := hplaced
        cases habsurd
      · rename_i e he
        obtain ⟨-, rfl⟩ := hplaced
        exact h.failed (.refl _) hd (.refl _) he rfl rfl rfl rfl rfl
  · cases hstep

theorem Balanced.call {r : Nat} (h : s.Balanced base capacity)
    (hstep : s.next (.next r i) = some s') : s'.Balanced base capacity := by
  simp only [Household.next] at hstep
  split at hstep
  · rename_i hi
    obtain ⟨reading, -, hcall⟩ := Option.bind_eq_some_iff.mp hstep
    obtain ⟨source, -, hsettle⟩ := Option.bind_eq_some_iff.mp hcall
    refine h.settle hi ?_ hsettle
    cases hwaiting : reading.waiting with
    | none => exact of_next ⟨{ reading.reader with source }, reading.progress, s.staging⟩
    | some header =>
      rcases of_readContent ⟨{ reading.reader with source }, reading.progress, s.staging⟩ header
        with ⟨hwaits, hsame⟩ | hover | ⟨d, hd, hnoted, hcontent⟩
      · exact Or.inl ⟨Or.inl hwaits, hsame ▸ .refl _⟩
      · exact Or.inr (Or.inl hover)
      · exact Or.inr (Or.inr ⟨s.staging, d, .refl _, hd, hnoted, hcontent⟩)
  · cases hstep

/-- **Every deed keeps the balance.** -/
theorem Balanced.next {deed : Deed} (h : s.Balanced base capacity)
    (hstep : s.next deed = some s') : s'.Balanced base capacity := by
  cases deed with
  | addSlot =>
    obtain rfl := Option.some.inj hstep
    have hplaces : ({ s with
        slots := { s.slots with contents := s.slots.contents ++ [.none] }
        alive := s.alive ++ [false] } : Household).places = s.places ++ [(.none, false)] :=
      List.zip_append h.length_eq.symm
    refine ⟨?_, ?_, by simp [h.length_eq], h.tallied, h.fits, h.capacity_eq⟩
    · have hnone : [((Content.none, false) : Content × Bool)].filterMap live? = [] := rfl
      rw [live, hplaces, List.filterMap_append, hnone, List.append_nil]
      exact h.houses
    · rw [hplaces]
      intro place hmem hdead
      rcases List.mem_append.mp hmem with hmem | hmem
      · exact h.hollow place hmem hdead
      · rw [List.mem_singleton.mp hmem]
        exact Content.isHollow_none
  | addStream source =>
    obtain rfl := Option.some.inj hstep
    exact h.restaged h.houses (Alike.refl _).sized h.tallied rfl rfl
  | addReader k maxMetadata =>
    obtain ⟨source, -, rfl⟩ := Option.map_eq_some_iff.mp hstep
    exact h.restaged h.houses (Alike.refl _).sized h.tallied rfl rfl
  | put way i k size => exact h.put hstep
  | next r i => exact h.call hstep
  | read i n =>
    simp only [Household.next] at hstep
    split at hstep
    · rename_i hi
      obtain rfl := Option.some.inj hstep
      exact h.read hi n
    · cases hstep
  | reset i =>
    simp only [Household.next] at hstep
    split at hstep
    · rename_i hi
      obtain rfl := Option.some.inj hstep
      exact h.replaced (c := .none) hi h.houses (Alike.refl _).sized (fun _ => Content.isHollow_none)
        rfl ⟨h.tallied.buffered, h.tallied.spilled⟩ rfl rfl rfl
    · cases hstep
  | move i j =>
    simp only [Household.next] at hstep
    split at hstep
    · rename_i hij
      obtain rfl := Option.some.inj hstep
      split
      · rename_i hsame
        refine h.restaged ?_ ?_ ?_ ?_ rfl <;> simp only [Slots.move, if_pos hsame, staging]
        · exact h.houses
        · exact (Alike.refl _).sized
        · exact h.tallied
      · rename_i hne
        exact h.move hij.1 hij.2 hne
    · cases hstep
  | hold =>
    simp only [Household.next] at hstep
    split at hstep
    · cases hstep
    · exact Option.some.inj hstep ▸ h
    · rename_i slots hgives
      obtain rfl := Option.some.inj hstep
      exact h.hold hgives
  | drop j =>
    obtain ⟨handle, hj, rfl⟩ := Option.map_eq_some_iff.mp hstep
    exact h.drop hj
  | interrupt =>
    obtain rfl := Option.some.inj hstep
    exact h.restaged (h.houses.waits true) ⟨rfl, rfl, rfl⟩ ⟨h.tallied.buffered, h.tallied.spilled⟩
      rfl rfl
  | clearInterrupt =>
    obtain rfl := Option.some.inj hstep
    exact h.restaged (h.houses.waits false) ⟨rfl, rfl, rfl⟩ ⟨h.tallied.buffered, h.tallied.spilled⟩
      rfl rfl

end Balanced

/-! ## 2. Accounts -/

/-- A content that is held is in a buffer that it has, or in a file that it has open. -/
theorem cases_of_isHeld {c : Content} (h : c.IsHeld) :
    (c.kind = .buffer ∧ c.buffer?.isSome ∧ c.path? = none ∧ c.file? = none) ∨
      (c.kind = .spill ∧ c.buffer? = none ∧ ∃ f, c.file? = some f ∧ c.path? = some f.1) := by
  cases c with
  | none => simp [Content.IsHeld, Content.buffer?, Content.file?] at h
  | buffered handle length offset =>
    refine Or.inl ⟨rfl, ?_, rfl, rfl⟩
    simpa [Content.IsHeld, Content.file?] using h
  | spilled f =>
    refine Or.inr ⟨rfl, rfl, ?_⟩
    obtain ⟨path, file, size⟩ := f
    cases file with
    | none => simp [Content.IsHeld, Content.buffer?, Content.file?] at h
    | some entry =>
      cases entry with
      | directory => simp [Content.IsHeld, Content.buffer?, Content.file?] at h
      | file node position => exact ⟨(path, node), rfl, rfl⟩

/-- True for a content in a buffer. -/
def isBuffered (c : Content) : Bool := c.kind == .buffer

variable {capacity : UInt32} {s s' : Household}

/-- **The buffers that are out** are those of live contents and those held. -/
theorem Balanced.outstanding_eq (h : s.Balanced base capacity) :
    s.staging.pool.outstanding.toNat = s.live.countP isBuffered + s.slots.held.length := by
  obtain ⟨free, hlends, hfree⟩ := h.houses.buffers
  have hlength := hfree.length_eq
  have hcounted := hlends.counted
  have hall : ∀ c ∈ s.live ++ s.slots.held.map keep, isBuffered c = c.buffer?.isSome := by
    intro c hc
    rcases cases_of_isHeld (h.houses.held c hc) with ⟨hkind, hbuffer, -⟩ | ⟨hkind, hbuffer, -⟩ <;>
      simp [isBuffered, hkind, hbuffer]
  have hcount : ((s.live ++ s.slots.held.map keep).filterMap Content.buffer?).length
      = (s.live ++ s.slots.held.map keep).countP isBuffered := by
    rw [List.length_filterMap_eq_countP]
    exact List.countP_congr fun c hc => by rw [hall c hc]
  have hkept : (s.slots.held.map keep).countP isBuffered = s.slots.held.length := by
    rw [List.countP_map]
    exact List.countP_eq_length.mpr fun _ _ => rfl
  rw [List.length_append, List.length_range, hcount, List.countP_append, hkept] at hlength
  omega

theorem Balanced.available_eq (h : s.Balanced base capacity) :
    s.staging.pool.available = s.staging.pool.capacity - s.staging.pool.outstanding := by
  obtain ⟨free, hlends, -⟩ := h.houses.buffers
  have hcounted := hlends.counted
  have havailable := hlends.available_eq
  apply UInt32.toNat_inj.mp
  rw [UInt32.toNat_sub_of_le _ _ (UInt32.le_iff_toNat_le.mpr (by omega))]
  omega

/-- **The temporary files** are those of live contents. -/
theorem Balanced.files (h : s.Balanced base capacity) :
    ∃ temps, base.Keeps s.staging.host temps ∧
      (temps.map Temporary.path).Perm (s.live.filterMap Content.path?) := by
  obtain ⟨temps, hkeep, htemps⟩ := h.houses.files
  refine ⟨temps, hkeep, ?_⟩
  have hkept : (s.slots.held.map keep).filterMap Content.file? = [] :=
    List.filterMap_eq_nil_iff.mpr fun c hc => by
      obtain ⟨handle, -, rfl⟩ := List.mem_map.mp hc
      rfl
  have hpaths : s.live.filterMap Content.path? = (s.live.filterMap Content.file?).map Prod.fst := by
    rw [List.map_filterMap]
    refine List.filterMap_congr fun c hc => ?_
    rcases cases_of_isHeld (h.houses.held c (List.mem_append_left _ hc)) with
      ⟨-, -, hpath, hfile⟩ | ⟨-, -, f, hfile, hpath⟩ <;> simp [hpath, hfile]
  rw [List.filterMap_append, hkept, List.append_nil] at htemps
  rw [hpaths]
  have hmap := htemps.map Prod.fst
  rwa [List.map_map] at hmap

theorem balanced_create {buffers : UInt32} (hbuffers : buffers.toNat ≤ Ring.widest) (host : Host)
    {bufferSize threshold : UInt64} (hfit : threshold ≤ bufferSize) (dir : Bytes) :
    (create host buffers bufferSize threshold dir).Balanced host
      (Pool.create buffers bufferSize).capacity where
  houses := houses_create hbuffers host bufferSize threshold dir
  hollow := fun place hmem => by cases hmem
  length_eq := rfl
  tallied := ⟨rfl, rfl⟩
  fits := hfit
  capacity_eq := rfl

/-- **Every run keeps the balance.** -/
theorem Balanced.follow {deeds : List Deed} (h : s.Balanced base capacity)
    (hrun : s.follow deeds = some s') : s'.Balanced base capacity := by
  induction deeds generalizing s with
  | nil => exact Option.some.inj hrun ▸ h
  | cons d rest ih =>
    rw [Household.follow] at hrun
    obtain ⟨s₁, hstep, hrest⟩ := Option.bind_eq_some_iff.mp hrun
    exact ih (h.next hstep) hrest

/-- **The accounts balance** after any run, whatever was put, brought, read, moved, dropped, held,
given back and interrupted in it, and whatever failed.  The buffers that are out are those of live
contents and those held for themselves, and the others are free.  The files that the run has left are
those of live contents, each to be found under its path; if the paths on the list were those of files
before, the run has added the same paths to it.  The counters count the contents that were made.  And
no payload is too large for the buffer that it goes to.

What is live and what is held account for all that the staging area has lent and for all its files
(`Balanced`). A deed gives one place another content, and what that place had is let go of before; a
payload that came to nothing has given back what it took. -/
theorem accounts_balance {host : Host} {buffers : UInt32} {bufferSize threshold : UInt64}
    {dir : Bytes} {deeds : List Deed} (hbuffers : buffers.toNat ≤ Ring.widest)
    (hfit : threshold ≤ bufferSize)
    (hrun : (create host buffers bufferSize threshold dir).follow deeds = some s) :
    s.staging.pool.outstanding.toNat = s.live.countP isBuffered + s.slots.held.length ∧
    s.staging.pool.available = s.staging.pool.capacity - s.staging.pool.outstanding ∧
    s.staging.pool.capacity = (if buffers = 0 then 1 else buffers) ∧
    (∃ temps : List Temporary,
      s.staging.host.disk.files = host.disk.files ++ temps.map Temporary.entry ∧
      (temps.map Temporary.path ~ s.live.filterMap Content.path?) ∧
      (∀ t ∈ temps, s.staging.host.disk.resolve t.path = .ok (.file t.place t.node)) ∧
      (host.Tidy → s.staging.host.registry = (temps.map Temporary.path).reverse ++ host.registry)) ∧
    s.staging.buffered = .ofNat (s.made.count .buffer) ∧
    s.staging.spilled = .ofNat (s.made.count .spill) ∧
    ∀ source size, s.staging.materialize source size ≠ .overflows := by
  have hbalanced := (balanced_create hbuffers host hfit dir).follow hrun
  obtain ⟨temps, hkeep, hpaths⟩ := hbalanced.files
  refine ⟨hbalanced.outstanding_eq, hbalanced.available_eq, ?_,
    ⟨temps, hkeep.files, hpaths, ?_, hkeep.registry⟩, hbalanced.tallied.buffered,
    hbalanced.tallied.spilled, materialize_not_overflows hbalanced.fits⟩
  · rw [hbalanced.capacity_eq]
    exact Pool.capacity_create_eq bufferSize hbuffers
  · intro t ht
    rw [(hkeep.leads t ht).resolve, Disk.found_of_some (hkeep.node?_eq ht)]

/-- Two buffers of three bytes, and payloads that go to buffers and to files. -/
def small : Household := create .empty 2 3 3 (Bytes.ofAscii "/tmp")

/-- A payload for a buffer, one for a file, one that is cut short, and a record that takes the last
buffer.  Who wants another buffer is turned away, and has one when the file has taken the place of the
first payload. -/
def smallRun : List Deed :=
  [.addSlot, .addSlot, .addSlot, .addStream (.ofBytes [1, 2, 3, 4, 5, 6, 7, 8] 0),
    .put .bySize 0 0 2, .put .bySize 1 0 4, .put .spill 2 0 99,
    .addStream (.ofBytes (Frame.encodeAll [([5], [1, 2])]) 0), .addReader 1 16, .next 0 2,
    .interrupt, .hold, .clearInterrupt, .move 0 1, .hold, .read 2 1]

theorem accounts_balance_small :
    ∃ s, small.follow smallRun = some s ∧ s.live.map Content.kind = [.spill, .buffer] ∧
      s.slots.held.length = 1 ∧ s.staging.pool.outstanding = 2 ∧
      s.staging.pool.outstanding.toNat = s.live.countP isBuffered + s.slots.held.length ∧
      s.staging.pool.available = 0 ∧ s.staging.buffered = 2 ∧ s.staging.spilled = 1 ∧
      ∃ temps : List Temporary, temps.map Temporary.path ~ s.live.filterMap Content.path? := by
  have hruns : (small.follow smallRun).any (fun s =>
      s.live.map Content.kind = [.spill, .buffer] ∧ s.slots.held.length = 1 ∧
        s.staging.pool.outstanding = 2 ∧ s.staging.pool.available = 0 ∧ s.staging.buffered = 2 ∧
        s.staging.spilled = 1) = true := by
    decide +kernel
  obtain ⟨s, hrun, hends⟩ := (Option.any_eq_true _ _).mp hruns
  obtain ⟨hlive, hheld, hout, hfree, hbuffered, hspilled⟩ := of_decide_eq_true hends
  obtain ⟨hsum, -, -, ⟨temps, -, hpaths, -⟩, -⟩ := accounts_balance (by decide) (by decide) hrun
  exact ⟨s, hrun, hlive, hheld, hout, hsum, hfree, hbuffered, hspilled, temps, hpaths⟩

end Household

end Intake.Staging
