import Mathlib.Order.Lattice
import Mathlib.Order.Defs.LinearOrder
import Mathlib.Tactic.Common

/-! The three small buffers the compute pallet keeps its time-dependent values in. -/

namespace Acurast.Compute

structure MemoryBuffer (τ V : Type*) where
  past : Option (τ × V)
  current : τ × V
  deriving DecidableEq

namespace MemoryBuffer

variable {τ V : Type*}

def newWith (timestamp : τ) (value : V) : MemoryBuffer τ V := ⟨none, timestamp, value⟩

variable [LinearOrder τ]

/-- Setting before the current time is refused; at it the value is replaced; after it the current
value becomes the past one. -/
def set (b : MemoryBuffer τ V) (t : τ) (value : V) : Option (MemoryBuffer τ V) :=
  if t < b.current.1 then none
  else if t = b.current.1 then some { b with current := (b.current.1, value) }
  else some ⟨some b.current, t, value⟩

def mutate (b : MemoryBuffer τ V) (t : τ) (f : V → V) : Option (MemoryBuffer τ V) :=
  if t < b.current.1 then none
  else if t = b.current.1 then some { b with current := (b.current.1, f b.current.2) }
  else some ⟨some b.current, t, f b.current.2⟩

def get (b : MemoryBuffer τ V) (t : τ) : Option V :=
  if t = b.current.1 then some b.current.2
  else match b.past with
    | some (start, value) => if t = start then some value else none
    | none => none

def getLatest (b : MemoryBuffer τ V) (t : τ) : Option V :=
  if b.current.1 ≤ t then some b.current.2
  else match b.past with
    | some (start, value) => if start ≤ t ∧ t < b.current.1 then some value else none
    | none => none

def latestEntry (b : MemoryBuffer τ V) (t : τ) : Option (τ × V) :=
  if b.current.1 ≤ t then some b.current
  else match b.past with
    | some (start, value) => if start ≤ t ∧ t < b.current.1 then some (start, value) else none
    | none => none

theorem getLatest_eq (b : MemoryBuffer τ V) (t : τ) :
    b.getLatest t = (b.latestEntry t).map Prod.snd := by
  unfold getLatest latestEntry
  split_ifs with h
  · rfl
  · rcases b.past with _ | ⟨start, val⟩
    · rfl
    · dsimp only
      split_ifs <;> rfl

variable {b b' : MemoryBuffer τ V} {t time : τ} {v : V} {f : V → V}

theorem current_of_set (h : b.set t v = some b') : b'.current = (t, v) := by
  unfold set at h
  split_ifs at h with hl hq
  · rw [← Option.some.inj h, hq]
  · rw [← Option.some.inj h]

theorem current_of_mutate (h : b.mutate t f = some b') : b'.current.2 = f b.current.2 := by
  unfold mutate at h
  split_ifs at h
  · rw [← Option.some.inj h]
  · rw [← Option.some.inj h]

theorem latestEntry_of_set {e : τ × V} (h : b.set t v = some b') (he : b'.latestEntry time = some e) :
    e = (t, v) ∨ b.latestEntry time = some e := by
  unfold set at h
  split_ifs at h with hl hq
  · obtain rfl := Option.some.inj h
    unfold latestEntry at he ⊢
    split_ifs at he ⊢
    · exact .inl (by rw [← Option.some.inj he, hq])
    · exact .inr he
  · obtain rfl := Option.some.inj h
    unfold latestEntry at he
    dsimp only at he
    split_ifs at he with hn hp
    · exact .inl (Option.some.inj he).symm
    · exact .inr (by rw [latestEntry, if_pos hp.1, he])

theorem latestEntry_of_mutate (h : b.mutate t f = some b') (ht : b.current.1 = t) (time : τ) :
    b'.current.1 = t ∧
      b'.latestEntry time = if t ≤ time then some (t, f b.current.2) else b.latestEntry time := by
  subst ht
  have hq : b.mutate b.current.1 f = some { b with current := (b.current.1, f b.current.2) } := by
    simp [mutate]
  rw [hq, Option.some.injEq] at h
  subst h
  refine ⟨rfl, ?_⟩
  unfold latestEntry
  split_ifs
  · rfl
  · rfl

theorem latestEntry_of_current_le (h : b.current.1 ≤ time) :
    b.latestEntry time = some b.current := if_pos h

end MemoryBuffer

structure SlidingBuffer (V : Type*) where
  epoch : ℕ
  prev : V
  cur : V
  deriving DecidableEq

namespace SlidingBuffer

variable {V : Type*} [Inhabited V]

instance : Inhabited (SlidingBuffer V) := ⟨⟨0, default, default⟩⟩

def new (epoch : ℕ) : SlidingBuffer V := ⟨epoch, default, default⟩

def newWith (epoch : ℕ) (value : V) : SlidingBuffer V := ⟨epoch, default, value⟩

def set (b : SlidingBuffer V) (epoch : ℕ) (value : V) : SlidingBuffer V :=
  if epoch + 1 = b.epoch then { b with prev := value }
  else if epoch = b.epoch then { b with cur := value }
  else if b.epoch + 1 = epoch then ⟨epoch, b.cur, value⟩
  else ⟨epoch, default, value⟩

def mutate (b : SlidingBuffer V) (epoch : ℕ) (f : V → V) (retain : Bool) : SlidingBuffer V :=
  if epoch + 1 = b.epoch then { b with prev := f b.prev }
  else if epoch = b.epoch then { b with cur := f b.cur }
  else if b.epoch + 1 = epoch then ⟨epoch, b.cur, f (if retain then b.cur else default)⟩
  else ⟨epoch, default, f default⟩

def get (b : SlidingBuffer V) (epoch : ℕ) : V :=
  if epoch + 1 = b.epoch then b.prev
  else if epoch = b.epoch then b.cur
  else default

variable {b : SlidingBuffer V} {epoch last t : ℕ}

theorem epoch_of_get_ne_default (h : b.get epoch ≠ default) :
    b.epoch = epoch + 1 ∨ b.epoch = epoch := by
  unfold get at h
  split_ifs at h with h1 h2
  · exact .inl h1.symm
  · exact .inr h2.symm
  · exact absurd rfl h

theorem get_of_epoch_lt (h : b.epoch < epoch) : b.get epoch = default := by
  unfold get
  rw [if_neg (by omega), if_neg (by omega)]

@[simp] theorem get_default (epoch : ℕ) : (default : SlidingBuffer V).get epoch = default := by
  unfold get
  split_ifs <;> rfl

theorem mutate_eq (h : b.epoch ≤ epoch) (f : V → V) (retain : Bool) : b.mutate epoch f retain =
      if epoch = b.epoch then { b with cur := f b.cur }
      else if b.epoch + 1 = epoch then ⟨epoch, b.cur, f (if retain then b.cur else default)⟩
      else ⟨epoch, default, f default⟩ := if_neg (by omega)

theorem epoch_mutate (h : b.epoch ≤ epoch) (f : V → V) (retain : Bool) :
    (b.mutate epoch f retain).epoch = epoch := by
  rw [mutate_eq h]
  by_cases hq : epoch = b.epoch
  · rw [if_pos hq, hq]
  · by_cases hs : b.epoch + 1 = epoch
    · rw [if_neg hq, if_pos hs]
    · rw [if_neg hq, if_neg hs]

theorem get_mutate (h : b.epoch ≤ epoch) (f : V → V) :
    (b.mutate epoch f false).get epoch = f (b.get epoch) := by
  have hn : ¬ epoch + 1 = epoch := Nat.succ_ne_self _
  rw [get, epoch_mutate h, if_neg hn, if_pos rfl, mutate_eq h]
  by_cases hq : epoch = b.epoch
  · rw [if_pos hq, get, if_neg (by omega), if_pos hq]
  · have hold : b.get epoch = default := get_of_epoch_lt (by omega)
    rw [if_neg hq, hold]
    by_cases hs : b.epoch + 1 = epoch
    · rw [if_pos hs]
      rfl
    · rw [if_neg hs]

theorem get_mutate_pred (h : b.epoch ≤ epoch) (hl : last + 1 = epoch) (f : V → V) (retain : Bool) :
    (b.mutate epoch f retain).get last = b.get last := by
  rw [get, epoch_mutate h, if_pos hl, mutate_eq h]
  by_cases hq : epoch = b.epoch
  · rw [if_pos hq, get, if_pos (hl.trans hq)]
  · rw [if_neg hq]
    by_cases hs : b.epoch + 1 = epoch
    · have hc : b.get last = b.cur := by rw [get, if_neg (by omega), if_pos (by omega)]
      rw [if_pos hs, hc]
    · have hold : b.get last = default := get_of_epoch_lt (by omega)
      rw [if_neg hs, hold]

theorem epoch_set (h : b.epoch ≤ epoch) (val : V) :
    (b.set epoch val).epoch = epoch := epoch_mutate h (fun _ => val) false

theorem get_set (h : b.epoch ≤ epoch) (value : V) :
    (b.set epoch value).get epoch = value := get_mutate h fun _ => value

theorem get_set_pred (h : b.epoch ≤ epoch) (hl : last + 1 = epoch) (val : V) :
    (b.set epoch val).get last = b.get last :=
  get_mutate_pred h hl (fun _ => val) false

theorem get_mutate_held (h : b.epoch = t + 1 ∨ b.epoch = t) (f : V → V) :
    (b.mutate t f false).epoch = b.epoch ∧
      ∀ x, (b.mutate t f false).get x = if x = t then f (b.get t) else b.get x := by
  rcases h with h | h
  · have hq : b.mutate t f false = { b with prev := f b.prev } := if_pos h.symm
    rw [hq]
    refine ⟨rfl, fun x => ?_⟩
    dsimp only [get]
    by_cases hx : x = t
    · rw [if_pos hx, hx, if_pos h.symm, if_pos h.symm]
    · have hn : ¬ x + 1 = b.epoch := by omega
      rw [if_neg hx, if_neg hn, if_neg hn]
  · have hq : b.mutate t f false = { b with cur := f b.cur } := by
      rw [mutate, if_neg (by omega), if_pos h.symm]
    rw [hq]
    refine ⟨rfl, fun x => ?_⟩
    dsimp only [get]
    by_cases hx : x = t
    · have hn : ¬ t + 1 = b.epoch := by omega
      rw [if_pos hx, hx, if_neg hn, if_pos h.symm, if_neg hn, if_pos h.symm]
    · have hn : ¬ x = b.epoch := by omega
      rw [if_neg hx, if_neg hn]
      rw [if_neg hn]

theorem forall_get_mutate {P : V → Prop} {f : V → V} (h : b.epoch ≤ t) (hd : P default)
    (hg : ∀ x, P (b.get x)) (hn : P (f (b.get t))) (x : ℕ) :
    P ((b.mutate t f false).get x) := by
  by_cases hx : x = t
  · rw [hx, get_mutate h]
    exact hn
  · by_cases hp : x + 1 = t
    · rw [get_mutate_pred h hp]
      exact hg x
    · rw [get, epoch_mutate h, if_neg hp, if_neg hx]
      exact hd

end SlidingBuffer

structure ProvisionalBuffer (V : Type*) where
  current : V
  next : Option (ℕ × V)
  deriving DecidableEq

namespace ProvisionalBuffer

variable {V : Type*}

def new (value : V) : ProvisionalBuffer V := ⟨value, none⟩

def set (b : ProvisionalBuffer V) (currentEpoch epoch : ℕ) (value : V) :
    Option (ProvisionalBuffer V) :=
  if epoch ≤ currentEpoch then some ⟨value, none⟩
  else match b.next with
    | some (nextEpoch, nextValue) =>
      if epoch ≤ nextEpoch then some { b with next := some (epoch, value) }
      else if currentEpoch < nextEpoch then none
      else some ⟨nextValue, some (epoch, value)⟩
    | none => some { b with next := some (epoch, value) }

def get (b : ProvisionalBuffer V) (epoch : ℕ) : V :=
  match b.next with
  | some (e, v) => if e ≤ epoch then v else b.current
  | none => b.current

def nextEpoch (b : ProvisionalBuffer V) (epoch : ℕ) : Option ℕ :=
  match b.next with
  | some (e, _) => if epoch < e then some e else none
  | none => none

end ProvisionalBuffer
end Acurast.Compute
