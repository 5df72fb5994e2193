import Acurast.ProcessorManager.Mock
import Acurast.ProcessorManager.Pairings

/-! Which pairing proofs are accepted. A proof for one use contains a counter that every use moves
on, and a proof for any number of uses is a signature of shorter bytes. -/

namespace Acurast.ProcessorManager

open Base

variable {A : Type} {T : Config A}

def accepted (s : State T) : List (Accepted T) :=
  s.history.filterMap fun
    | .paired a => some a
    | .unpaired _ _ => none
    | .charged _ _ _ => none

section Histories

variable {s s' : State T}

theorem accepted_of_paired {a : Accepted T} (h : s'.history = .paired a :: s.history) :
    accepted s' = a :: accepted s := by
  simp only [accepted, h, List.filterMap_cons]

theorem accepted_of_unpaired {m processor : A}
    (h : s'.history = .unpaired m processor :: s.history) : accepted s' = accepted s := by
  simp only [accepted, h, List.filterMap_cons]

theorem accepted_of_charged {payer : A} {paid refund : ℕ}
    (h : s'.history = .charged payer paid refund :: s.history) : accepted s' = accepted s := by
  simp only [accepted, h, List.filterMap_cons]

theorem accepted_of_same (h : s'.history = s.history) : accepted s' = accepted s := by
  simp only [accepted, h]

end Histories

theorem message_ne_multiMessage (hl : ∀ a b, (T.encodeAccount a).length =
    (T.encodeAccount b).length) (a b : A) (timestamp timestamp' : ℕ) (counter : Counter) :
    message T a timestamp counter ≠ multiMessage T b timestamp' := by
  intro hq
  have hn := congrArg List.length hq
  simp only [message, multiMessage, List.length_append, length_littleEndian] at hn
  have ha := hl a b
  omega

variable [DecidableEq A] {s s' : State T}

def countersOf (s : State T) (manager : A) : List Counter :=
  (accepted s).filterMap fun a => if a.manager = manager then a.counter else none

structure Counted (s : State T) : Prop where
  genuine : ∀ a ∈ accepted s, Genuine a
  stored : ∀ manager, ∀ counter ∈ countersOf s manager, counter ≤ s.managerCounter.getD manager 0
  nodup : ∀ manager, (countersOf s manager).Nodup

theorem Counted.congr (hs : Counted s) (ha : accepted s' = accepted s)
    (ho : s'.managerCounter = s.managerCounter) : Counted s' := by
  have hc : ∀ manager, countersOf s' manager = countersOf s manager := by
    intro manager
    rw [countersOf, ha, countersOf]
  refine ⟨?_, ?_, ?_⟩
  · rw [ha]
    exact hs.genuine
  · intro manager
    rw [hc, ho]
    exact hs.stored manager
  · intro manager
    rw [hc]
    exact hs.nodup manager

theorem Counted.pairs {id : ManagerId} {a : Accepted T} (hs : Counted s) (h : Pairs s s' id a) :
    Counted s' := by
  have hac := accepted_of_paired h.history
  refine ⟨?_, ?_, ?_⟩
  · intro b hb
    rw [hac] at hb
    rcases List.mem_cons.mp hb with rfl | hold
    · exact h.genuine
    · exact hs.genuine b hold
  · intro m c hc
    have ht := hs.stored m c
    rw [countersOf, hac, List.filterMap_cons] at hc
    rw [h.counter]
    cases ho : a.counter with
    | none =>
      rw [ho, ite_self] at hc
      exact ht hc
    | some counter =>
      have hn := h.next counter ho
      rw [insertCounter, getD_insert]
      rw [ho] at hc
      by_cases ha : a.manager = m
      · subst ha
        rw [if_pos rfl] at hc ⊢
        rcases List.mem_cons.mp hc with rfl | hold
        · exact le_rfl
        · rw [hn]
          exact Nat.le_succ_of_le (ht hold)
      · rw [if_neg ha] at hc
        rw [if_neg (Ne.symm ha)]
        exact ht hc
  · intro m
    rw [countersOf, hac, List.filterMap_cons]
    by_cases ha : a.manager = m
    · rw [if_pos ha]
      cases ho : a.counter with
      | none => exact hs.nodup m
      | some counter =>
        refine List.nodup_cons.mpr ⟨?_, hs.nodup m⟩
        intro hold
        have hl := hs.stored m counter hold
        have hn := h.next counter ho
        rw [ha] at hn
        exact Nat.not_succ_le_self _ (hn ▸ hl)
    · rw [if_neg ha]
      exact hs.nodup m

theorem keeps_counted : Keeps (Counted : State T → Prop) where
  act s s' h hs := by
    cases h with
    | aside h => exact hs.congr (accepted_of_same h.history) h.counter
    | creates id m h => exact hs.congr (accepted_of_same h.history) h.counter
    | pairs id a h => exact hs.pairs h
    | unpairs id m proc h => exact hs.congr (accepted_of_unpaired h.history) h.counter
  charges s s' payer paid refund h hs := hs.congr (accepted_of_charged h.history) h.counter

theorem run_counted (w : T.World) (accounts : Ledger A T.existentialDeposit T.maxConsumers)
    (ops : List (Op T)) : Counted (run step (State.genesis T w accounts) ops) := by
  apply keeps_counted.run
  refine ⟨?_, ?_, fun m => List.nodup_nil⟩
  · intro a ha
    cases ha
  · intro m c hc
    cases hc

def Unforgeable (T : Config A) : Prop :=
  ∀ signature account m m', T.verify signature m account = true →
    T.verify signature m' account = true → m = m'

theorem mock_unforgeable : Unforgeable mock := by
  intro sig a m m' hm hm'
  exact congrArg Prod.fst ((mock_verify.mp hm).symm.trans (mock_verify.mp hm'))

theorem mock_length (a b : ℕ) : (mock.encodeAccount a).length = (mock.encodeAccount b).length :=
  (length_littleEndian 4 a).trans (length_littleEndian 4 b).symm

end Acurast.ProcessorManager
