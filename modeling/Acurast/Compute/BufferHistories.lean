import Acurast.Base.Run
import Acurast.Compute.Buffers
import Mathlib.Logic.Function.Basic

/-! The buffers against what they stand for: a memory buffer against all that was ever set, a sliding
buffer against a map over all epochs, a provisional buffer against what it is read as. -/

namespace Acurast.Compute

open Base

inductive BufferCall (τ V : Type*) where
  | set (time : τ) (value : V)
  | mutate (time : τ) (f : V → V)

def BufferCall.time {τ V : Type*} : BufferCall τ V → τ
  | .set t _ => t
  | .mutate t _ => t

section Memory

variable {τ V : Type*} [LinearOrder τ]

/-- Every value that was accepted, under its time, with the latest of the times. -/
structure History (τ V : Type*) where
  latest : τ
  values : τ → Option V

namespace History

def newWith (t : τ) (v : V) : History τ V := ⟨t, fun x => if x = t then some v else none⟩

def accept (h : History τ V) : BufferCall τ V → History τ V
  | .set t v => ⟨t, Function.update h.values t (some v)⟩
  | .mutate t f => ⟨t, Function.update h.values t ((h.values h.latest).map f)⟩

def InForce (h : History τ V) (t : τ) (v : V) : Prop :=
  ∃ start ≤ t, h.values start = some v ∧ ∀ x ≤ t, (h.values x).isSome → x ≤ start

def IsSecondLatest (h : History τ V) (start : τ) : Prop :=
  (h.values start).isSome ∧ (∀ x, (h.values x).isSome → x ≤ start ∨ x = h.latest) ∧
    (start = h.latest → ∀ x, (h.values x).isSome → x = start)

end History

def MemoryBuffer.call (b : MemoryBuffer τ V) : BufferCall τ V → Option (MemoryBuffer τ V)
  | .set t v => b.set t v
  | .mutate t f => b.mutate t f

def historyStep (p : MemoryBuffer τ V × History τ V) (c : BufferCall τ V) :
    MemoryBuffer τ V × History τ V :=
  match p.1.call c with
  | some b => (b, p.2.accept c)
  | none => p

/-- The buffer holds the latest entry of the history, and the one before it if there is one. -/
structure Remembers (b : MemoryBuffer τ V) (h : History τ V) : Prop where
  latest : b.current.1 = h.latest
  current : h.values b.current.1 = some b.current.2
  le : ∀ x, (h.values x).isSome → x ≤ b.current.1
  past : ∀ t v, b.past = some (t, v) → t < b.current.1 ∧ h.values t = some v
  older : ∀ x, (h.values x).isSome → x < b.current.1 → ∃ e, b.past = some e ∧ x ≤ e.1

variable {b b' : MemoryBuffer τ V} {h : History τ V} {t : τ} {v : V} {c : BufferCall τ V}

theorem Remembers.replace (hb : Remembers b h) (v : V) :
    Remembers { b with current := (b.current.1, v) }
      ⟨b.current.1, Function.update h.values b.current.1 (some v)⟩ := by
  have hs : ∀ x, (Function.update h.values b.current.1 (some v) x).isSome → (h.values x).isSome := by
    intro x hx
    by_cases hxt : x = b.current.1
    · rw [hxt, hb.current]
      rfl
    · rwa [Function.update_of_ne hxt] at hx
  refine ⟨rfl, Function.update_self .., fun x hx => hb.le x (hs x hx), fun t w ht => ?_,
    fun x hx => hb.older x (hs x hx)⟩
  obtain ⟨hl, hw⟩ := hb.past t w ht
  exact ⟨hl, by rw [← hw]; exact Function.update_of_ne hl.ne _ _⟩

theorem Remembers.advance (hb : Remembers b h) (ht : b.current.1 < t) (v : V) :
    Remembers ⟨some b.current, t, v⟩ ⟨t, Function.update h.values t (some v)⟩ := by
  have hs : ∀ x, x ≠ t → (Function.update h.values t (some v) x).isSome → x ≤ b.current.1 := by
    intro x hxt hx
    rw [Function.update_of_ne hxt] at hx
    exact hb.le x hx
  refine ⟨rfl, Function.update_self .., fun x hx => ?_, fun t' w hw => ?_, fun x hx hl => ?_⟩
  · by_cases hxt : x = t
    · exact hxt.le
    · exact (hs x hxt hx).trans ht.le
  · have he : b.current = (t', w) := Option.some.inj hw
    have hc := hb.current
    rw [he] at ht hc
    exact ⟨ht, by rw [← hc]; exact Function.update_of_ne ht.ne _ _⟩
  · exact ⟨b.current, rfl, hs x hl.ne hx⟩

theorem Remembers.set (hb : Remembers b h) (hs : b.set t v = some b') :
    Remembers b' ⟨t, Function.update h.values t (some v)⟩ := by
  unfold MemoryBuffer.set at hs
  split_ifs at hs with hl hq
  · obtain rfl := Option.some.inj hs
    subst hq
    exact hb.replace v
  · obtain rfl := Option.some.inj hs
    exact hb.advance (lt_of_le_of_ne (not_lt.mp hl) (Ne.symm hq)) v

theorem historyStep_remembers (p : MemoryBuffer τ V × History τ V) (c : BufferCall τ V)
    (hp : Remembers p.1 p.2) : Remembers (historyStep p c).1 (historyStep p c).2 := by
  have hcur : p.2.values p.2.latest = some p.1.current.2 := by rw [← hp.latest, hp.current]
  unfold historyStep
  cases hc : p.1.call c with
  | none => exact hp
  | some b' =>
    cases c with
    | set t v => exact hp.set hc
    | mutate t f =>
      -- a mutation sets what it makes of the current value
      have hs : p.1.set t (f p.1.current.2) = some b' := hc
      have hb' := hp.set hs
      rwa [← Option.map_some, ← hcur] at hb'

theorem newWith_remembers (t : τ) (v : V) :
    Remembers (MemoryBuffer.newWith t v) (History.newWith t v) := by
  have hq : ∀ x, ((History.newWith t v).values x).isSome → x = t := by
    intro x hx
    by_contra hn
    simp [History.newWith, hn] at hx
  refine ⟨rfl, if_pos rfl, fun x hx => (hq x hx).le, nofun, fun x hx hl => ?_⟩
  exact absurd (hq x hx) hl.ne

theorem Remembers.inForce (hb : Remembers b h) (hv : b.getLatest t = some v) : h.InForce t v := by
  unfold MemoryBuffer.getLatest at hv
  split_ifs at hv with hl
  · refine ⟨b.current.1, hl, ?_, fun x _ hx => hb.le x hx⟩
    rw [hb.current, hv]
  · split at hv
    · next start w hp =>
      split_ifs at hv with ht
      obtain rfl := Option.some.inj hv
      obtain ⟨-, hw⟩ := hb.past start w hp
      refine ⟨start, ht.1, hw, fun x hxt hx => ?_⟩
      obtain ⟨e, he, hxe⟩ := hb.older x hx (hxt.trans_lt ht.2)
      obtain rfl := Option.mem_unique hp he
      exact hxe
    · cases hv

theorem Remembers.lt_secondLatest (hb : Remembers b h) (hv : b.getLatest t = none) :
    ∃ start, h.IsSecondLatest start ∧ t < start := by
  unfold MemoryBuffer.getLatest at hv
  split_ifs at hv with hle
  have hl : t < b.current.1 := not_le.mp hle
  cases hp : b.past with
  | none =>
    have ho : ∀ x, (h.values x).isSome → x = b.current.1 := by
      intro x hx
      refine (hb.le x hx).eq_of_not_lt fun hxl => ?_
      obtain ⟨e, he, -⟩ := hb.older x hx hxl
      rw [hp] at he
      cases he
    refine ⟨b.current.1, ⟨?_, fun x hx => .inl (hb.le x hx), fun _ => ho⟩, hl⟩
    rw [hb.current]
    rfl
  | some e =>
    obtain ⟨start, w⟩ := e
    rw [hp] at hv
    obtain ⟨hs, hw⟩ := hb.past start w hp
    refine ⟨start, ⟨?_, fun x hx => ?_, fun hq => ?_⟩, ?_⟩
    · rw [hw]
      rfl
    · rcases (hb.le x hx).eq_or_lt with hx' | hx'
      · exact .inr (hx'.trans hb.latest)
      · obtain ⟨e, he, hxe⟩ := hb.older x hx hx'
        obtain rfl := Option.mem_unique hp he
        exact .inl hxe
    · exact absurd (hq.trans hb.latest.symm) hs.ne
    · by_contra ht
      dsimp only at hv
      rw [if_pos ⟨not_lt.mp ht, hl⟩] at hv
      cases hv

def afterCalls (t : τ) (v : V) (calls : List (BufferCall τ V)) : MemoryBuffer τ V × History τ V :=
  run historyStep (MemoryBuffer.newWith t v, History.newWith t v) calls

/-- After every sequence of calls a call is refused exactly if it is for a time before the latest one,
what is read is in force, and nothing is read only before the second-latest time. -/
theorem memoryBuffer_refines_history (t₀ : τ) (v₀ : V) (calls : List (BufferCall τ V)) :
    (∀ c, ((afterCalls t₀ v₀ calls).1.call c = none ↔ c.time < (afterCalls t₀ v₀ calls).2.latest) ∧
      ((afterCalls t₀ v₀ calls).1.call c = none →
        historyStep (afterCalls t₀ v₀ calls) c = afterCalls t₀ v₀ calls)) ∧
      (∀ t v, (afterCalls t₀ v₀ calls).1.getLatest t = some v →
        (afterCalls t₀ v₀ calls).2.InForce t v) ∧
      ∀ t, (afterCalls t₀ v₀ calls).1.getLatest t = none →
        ∃ start, (afterCalls t₀ v₀ calls).2.IsSecondLatest start ∧ t < start := by
  have hrun : Remembers (afterCalls t₀ v₀ calls).1 (afterCalls t₀ v₀ calls).2 :=
    run_invariant' (s := (MemoryBuffer.newWith t₀ v₀, History.newWith t₀ v₀)) historyStep_remembers calls
      (newWith_remembers t₀ v₀)
  generalize afterCalls t₀ v₀ calls = p at hrun ⊢
  refine ⟨fun c => ⟨?_, fun hc => ?_⟩, fun t v => hrun.inForce, fun t => hrun.lt_secondLatest⟩
  · rw [← hrun.latest]
    cases c <;> simp only [MemoryBuffer.call, MemoryBuffer.set, MemoryBuffer.mutate, BufferCall.time] <;>
      split_ifs <;> simp [*]
  · unfold historyStep
    rw [hc]

end Memory

section Sliding

variable {V : Type*} [Inhabited V]

/-- A value for every epoch, the default one before it is written, with the highest epoch written. -/
structure EpochMap (V : Type*) where
  highest : ℕ
  values : ℕ → V

def EpochMap.newWith (epoch : ℕ) (value : V) : EpochMap V :=
  ⟨epoch, Function.update default epoch value⟩

def EpochMap.accept (m : EpochMap V) : BufferCall ℕ V → EpochMap V
  | .set e v => ⟨max m.highest e, Function.update m.values e v⟩
  | .mutate e f => ⟨max m.highest e, Function.update m.values e (f (m.values e))⟩

def SlidingBuffer.call (b : SlidingBuffer V) : BufferCall ℕ V → SlidingBuffer V
  | .set e v => b.set e v
  | .mutate e f => b.mutate e f false

def epochStep (p : SlidingBuffer V × EpochMap V) (c : BufferCall ℕ V) : SlidingBuffer V × EpochMap V :=
  (p.1.call c, p.2.accept c)

abbrev NearHighest (p : SlidingBuffer V × EpochMap V) (c : BufferCall ℕ V) : Prop :=
  p.2.highest ≤ c.time + 1

structure Slides (b : SlidingBuffer V) (m : EpochMap V) : Prop where
  epoch : b.epoch = m.highest
  cur : b.cur = m.values m.highest
  prev : ∀ e, e + 1 = m.highest → b.prev = m.values e
  later : ∀ e, m.highest < e → m.values e = default

variable {b : SlidingBuffer V} {m : EpochMap V} {e : ℕ}

theorem Slides.get_eq (h : Slides b m) (e : ℕ) :
    b.get e = if e = m.highest ∨ e + 1 = m.highest then m.values e else default := by
  unfold SlidingBuffer.get
  rw [h.epoch]
  by_cases hp : e + 1 = m.highest
  · rw [if_pos hp, if_pos (.inr hp), h.prev e hp]
  · by_cases hc : e = m.highest
    · rw [if_neg hp, if_pos hc, if_pos (.inl hc), h.cur, hc]
    · rw [if_neg hp, if_neg hc, if_neg (by tauto)]

theorem slides_mk {n : ℕ} {p c : V} {w : ℕ → V} (hc : c = w n) (hp : ∀ e, e + 1 = n → p = w e)
    (hl : ∀ e, n < e → w e = default) : Slides ⟨n, p, c⟩ ⟨n, w⟩ :=
  ⟨rfl, hc, hp, hl⟩

theorem Slides.mutate (h : Slides b m) (he : m.highest ≤ e + 1) (f : V → V) :
    Slides (b.mutate e f false)
      ⟨max m.highest e, Function.update m.values e (f (m.values e))⟩ := by
  have hn : ∀ x, x ≠ e → Function.update m.values e (f (m.values e)) x = m.values x :=
    fun x hx => Function.update_of_ne hx _ _
  have hs : Function.update m.values e (f (m.values e)) e = f (m.values e) := Function.update_self ..
  unfold SlidingBuffer.mutate
  rw [h.epoch]
  split_ifs with h₁ h₂ h₃ hr
  · have hm : max m.highest e = m.highest := max_eq_left (by omega)
    rw [hm]
    refine slides_mk ?_ (fun x hx => ?_) fun x hx => ?_
    · rw [h.cur, hn _ (by omega)]
    · obtain rfl : x = e := by omega
      rw [hs, ← h.prev x h₁]
    · rw [hn x (by omega)]
      exact h.later x hx
  · subst h₂
    rw [max_self]
    refine slides_mk ?_ (fun x hx => ?_) fun x hx => ?_
    · rw [hs, ← h.cur]
    · rw [hn x (by omega)]
      exact h.prev x hx
    · rw [hn x (by omega)]
      exact h.later x hx
  · exact hr.elim
  all_goals
    have hm : max m.highest e = e := max_eq_right (by omega)
    rw [hm]
    have hw : m.values e = default := h.later e (by omega)
    refine slides_mk ?_ (fun x hx => ?_) fun x hx => ?_
  · rw [hs, hw]
  · obtain rfl : x = m.highest := by omega
    rw [hn _ (by omega), h.cur]
  · rw [hn x (by omega)]
    exact h.later x (by omega)
  · rw [hs, hw]
  · rw [hn x (by omega)]
    exact (h.later x (by omega)).symm
  · rw [hn x (by omega)]
    exact h.later x (by omega)

theorem epochStep_slides (p : SlidingBuffer V × EpochMap V) (c : BufferCall ℕ V)
    (hc : NearHighest p c) (h : Slides p.1 p.2) : Slides (epochStep p c).1 (epochStep p c).2 := by
  cases c with
  | set e v =>
    have hs := h.mutate hc fun _ => v
    exact hs
  | mutate e f => exact h.mutate hc f

theorem newWith_slides (epoch : ℕ) (val : V) :
    Slides (SlidingBuffer.newWith epoch val) (EpochMap.newWith epoch val) := by
  refine slides_mk ?_ (fun e he => ?_) fun e he => ?_
  · rw [Function.update_self]
  · rw [Function.update_of_ne (by omega)]
    rfl
  · rw [Function.update_of_ne he.ne']
    rfl

def afterEpochCalls (epoch : ℕ) (value : V) (calls : List (BufferCall ℕ V)) :
    SlidingBuffer V × EpochMap V :=
  run epochStep (SlidingBuffer.newWith epoch value, EpochMap.newWith epoch value) calls

/-- After calls for epochs that are never more than one below the highest one, the buffer holds what
the map does for the highest epoch and the one before it. -/
theorem slidingBuffer_refines_map (epoch : ℕ) (val : V) (calls : List (BufferCall ℕ V))
    (hcalls : Along epochStep NearHighest
      (SlidingBuffer.newWith epoch val, EpochMap.newWith epoch val) calls) (e : ℕ) :
    (afterEpochCalls epoch val calls).1.get e =
      if e = (afterEpochCalls epoch val calls).2.highest ∨
          e + 1 = (afterEpochCalls epoch val calls).2.highest then
        (afterEpochCalls epoch val calls).2.values e
      else default := by
  have hr : Slides (afterEpochCalls epoch val calls).1 (afterEpochCalls epoch val calls).2 :=
    run_invariant (s := (SlidingBuffer.newWith epoch val, EpochMap.newWith epoch val))
      epochStep_slides hcalls (newWith_slides epoch val)
  exact hr.get_eq e

def lateWrites : List (BufferCall ℕ ℕ) := [.set 3 7, .mutate 2 (· + 1), .set 5 8, .mutate 4 (· + 2)]

theorem slidingBuffer_refines_map_of_lateWrites :
    (afterEpochCalls 0 0 lateWrites).1.get 4 = 2 ∧ (afterEpochCalls 0 0 lateWrites).2.values 4 = 2 ∧
      (afterEpochCalls 0 0 lateWrites).1.get 4 =
        if 4 = (afterEpochCalls 0 0 lateWrites).2.highest ∨
            4 + 1 = (afterEpochCalls 0 0 lateWrites).2.highest then
          (afterEpochCalls 0 0 lateWrites).2.values 4
        else default :=
  ⟨by decide, by decide, slidingBuffer_refines_map 0 0 lateWrites (by decide) 4⟩

end Sliding

section Provisional

variable {V : Type*} {b b' : ProvisionalBuffer V} {currentEpoch epoch : ℕ} {value val : V}

theorem get_of_set (h : b.set currentEpoch epoch val = some b') (e : ℕ) :
    (epoch ≤ e → b'.get e = val) ∧ (currentEpoch ≤ e → e < epoch → b'.get e = b.get e) := by
  unfold ProvisionalBuffer.set at h
  split_ifs at h with hp
  · obtain rfl := Option.some.inj h
    exact ⟨fun _ => rfl, fun hc he => absurd (hp.trans hc) (not_le.mpr he)⟩
  · unfold ProvisionalBuffer.get
    cases hn : b.next with
    | none =>
      rw [hn] at h
      obtain rfl := Option.some.inj h
      exact ⟨fun he => if_pos he, fun _ he => if_neg (not_le.mpr he)⟩
    | some next =>
      rw [hn] at h
      dsimp only at h ⊢
      split_ifs at h with hl hu
      · obtain rfl := Option.some.inj h
        refine ⟨fun he => if_pos he, fun _ he => ?_⟩
        dsimp only
        rw [if_neg (by omega), if_neg (by omega)]
      · obtain rfl := Option.some.inj h
        refine ⟨fun he => if_pos he, fun hc he => ?_⟩
        dsimp only
        rw [if_neg (by omega), if_pos (by omega)]

theorem scheduled_of_set_eq_none (h : b.set currentEpoch epoch val = none) :
    ∃ n v, b.next = some (n, v) ∧ currentEpoch < n ∧ n < epoch := by
  unfold ProvisionalBuffer.set at h
  split_ifs at h
  split at h
  · next n v hn =>
    split_ifs at h with hl hc
    exact ⟨n, v, hn, hc, not_le.mp hl⟩
  · cases h

theorem nextEpoch_of_get_ne {start e : ℕ} (he : start < e) (h : b.get e ≠ b.get (e - 1)) :
    b.nextEpoch start = some e := by
  unfold ProvisionalBuffer.get at h
  unfold ProvisionalBuffer.nextEpoch
  cases hn : b.next with
  | none =>
    rw [hn] at h
    exact absurd rfl h
  | some next =>
    obtain ⟨n, v⟩ := next
    rw [hn] at h
    dsimp only at h ⊢
    obtain rfl : n = e := by
      by_contra hne
      split_ifs at h <;> first | exact h rfl | omega
    rw [if_pos he]

/-- A value is set from its epoch on and changes nothing from now to then, or is refused because of a
change that is due before it. The next epoch is the only later point at which what is read changes. -/
theorem provisionalBuffer_schedules (b : ProvisionalBuffer V) (currentEpoch epoch : ℕ) (val : V) :
    (∀ b', b.set currentEpoch epoch val = some b' →
      (∀ e, epoch ≤ e → b'.get e = val) ∧
        ∀ e, currentEpoch ≤ e → e < epoch → b'.get e = b.get e) ∧
    (b.set currentEpoch epoch val = none →
      (b.set currentEpoch epoch val).getD b = b ∧
        ∃ n v, b.next = some (n, v) ∧ currentEpoch < n ∧ n < epoch) ∧
    ∀ start e, start < e → b.get e ≠ b.get (e - 1) → b.nextEpoch start = some e := by
  refine ⟨fun b' h => ?_, fun h => ?_, fun start e => nextEpoch_of_get_ne⟩
  · exact ⟨fun e => (get_of_set h e).1, fun e => (get_of_set h e).2⟩
  · refine ⟨?_, scheduled_of_set_eq_none h⟩
    rw [h, Option.getD_none]

end Provisional
end Acurast.Compute
