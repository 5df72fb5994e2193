import Acurast.Base.Storage

/-! Counting votes. The counts are machine words in a map that may hold earlier counts, and the
candidates are listed in the order of their first votes. -/

namespace Base

section Votes

variable {β : Type*} [DecidableEq β] {w : ℕ}

def addVote (t : StorageMap β (BitVec w) × List β) (candidate : β) :
    StorageMap β (BitVec w) × List β :=
  (t.1.insert candidate (t.1.getD candidate 0 + 1),
    if candidate ∈ t.2 then t.2 else t.2 ++ [candidate])

theorem getD_foldl_addVote (votes : List β) (t : StorageMap β (BitVec w) × List β) (candidate : β) :
    (votes.foldl addVote t).1.getD candidate 0 =
      t.1.getD candidate 0 + BitVec.ofNat w (votes.count candidate) := by
  induction votes generalizing t with
  | nil => simp
  | cons vote votes ih =>
    rw [List.foldl_cons, ih, addVote, getD_insert, List.count_cons]
    split_ifs with hq hb hb
    · rw [hq, BitVec.ofNat_add, BitVec.add_assoc, BitVec.add_comm 1]
      rfl
    · exact absurd (beq_iff_eq.mpr hq.symm) hb
    · exact absurd (beq_iff_eq.mp hb).symm hq
    · rw [Nat.add_zero]

theorem mem_foldl_addVote (votes : List β) (t : StorageMap β (BitVec w) × List β) (candidate : β) :
    candidate ∈ (votes.foldl addVote t).2 ↔ candidate ∈ t.2 ∨ candidate ∈ votes := by
  induction votes generalizing t with
  | nil => simp
  | cons vote votes ih =>
    have hv : candidate ∈ (addVote t vote).2 ↔ candidate ∈ t.2 ∨ candidate = vote := by
      unfold addVote
      split_ifs with hm
      · exact ⟨.inl, fun h => h.elim id fun hq => hq ▸ hm⟩
      · rw [List.mem_append, List.mem_singleton]
    rw [List.foldl_cons, ih, hv, List.mem_cons, or_assoc]

end Votes

section Selection

variable {β : Type*} {w : ℕ}

def pickLarger (count : β → BitVec w) (selected : β × BitVec w) (candidate : β) : β × BitVec w :=
  if selected.2 < count candidate then (candidate, count candidate) else selected

theorem le_foldl_pickLarger (count : β → BitVec w) (cs : List β) (sel : β × BitVec w)
    (n : BitVec w) : n ≤ (cs.foldl (pickLarger count) sel).2 ↔
      n ≤ sel.2 ∨ ∃ candidate ∈ cs, n ≤ count candidate := by
  induction cs generalizing sel with
  | nil => simp
  | cons candidate cs ih =>
    have hp : n ≤ (pickLarger count sel candidate).2 ↔
        n ≤ sel.2 ∨ n ≤ count candidate := by
      unfold pickLarger
      split_ifs with ht
      · exact ⟨.inr, fun h => h.elim (fun hl => BitVec.le_trans hl (BitVec.le_of_lt ht)) id⟩
      · exact ⟨.inl, fun h => h.elim id fun hl => BitVec.le_trans hl (BitVec.not_lt.mp ht)⟩
    rw [List.foldl_cons, ih, hp, List.exists_mem_cons_iff, or_assoc]

end Selection

end Base
