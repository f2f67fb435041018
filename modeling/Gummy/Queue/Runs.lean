import Gummy.Lib.Transition
import Gummy.Queue

/-!
Runs of queue operations.

Any number of queues are set up by `queue_init`, and any number of nodes start out
filled with zeros.  Whatever the order of the operations that follow, the queues
stand for duplicate-free lists, and each operation does to them what its name says.
-/

namespace Gummy

open Transition (Reachable)

variable {κ ν : Type*} [DecidableEq κ] [DecidableEq ν] {Q : Queues κ ν} {N : ν → Prop}
  {ks : List κ}

/-! ### Operations -/

inductive QueueOp (κ ν : Type*)
  | push (k : κ) (n : ν)
  | pop (k : κ)
  | remove (n : ν)

namespace QueueOp

/-- The queues and nodes that the operation is called with. -/
def Valid (N : ν → Prop) (ks : List κ) : QueueOp κ ν → Prop
  | push k n => k ∈ ks ∧ N n
  | pop k => k ∈ ks
  | remove n => N n

def apply (Q : Queues κ ν) : QueueOp κ ν → Queues κ ν
  | push k n => queuePush Q k n
  | pop k => (queuePop Q k).2
  | remove n => queueRemove Q n

end QueueOp

/-- The nodes `N` are filled with zeros, and the queues `ks` have been initialised in
memory that may have held anything. -/
def QueuesInit (N : ν → Prop) (ks : List κ) (Q : Queues κ ν) : Prop :=
  ∃ Q₀ : Queues κ ν, (∀ n, N n → Q₀.next n = none ∧ Q₀.prev n = none ∧ Q₀.q n = none) ∧
    Q = ks.foldl queueInit Q₀

def QueuesStep (N : ν → Prop) (ks : List κ) (Q : Queues κ ν) (op : QueueOp κ ν)
    (Q' : Queues κ ν) : Prop :=
  op.Valid N ks ∧ Q' = op.apply Q

/-! ### What the queues stand for -/

omit [DecidableEq ν] in
lemma foldl_queueInit_q (ks : List κ) (Q : Queues κ ν) : (ks.foldl queueInit Q).q = Q.q := by
  induction ks generalizing Q with
  | nil => rfl
  | cons k ks ih => exact ih (queueInit Q k)

omit [DecidableEq ν] in
/-- A queue that has been initialised is empty, and stays so when others are. -/
lemma foldl_queueInit_head {k : κ} (ks : List κ) (Q : Queues κ ν)
    (h : k ∈ ks ∨ Q.headNext k = none ∧ Q.headPrev k = none ∧ Q.size k = 0) :
    (ks.foldl queueInit Q).headNext k = none ∧ (ks.foldl queueInit Q).headPrev k = none ∧
      (ks.foldl queueInit Q).size k = 0 := by
  induction ks generalizing Q with
  | nil => exact h.resolve_left List.not_mem_nil
  | cons j ks ih =>
    refine ih (queueInit Q j) ?_
    by_cases hj : k = j
    · subst hj
      exact Or.inr (by simp [queueInit])
    · obtain hk | hk := h
      · exact Or.inl ((List.mem_cons.1 hk).resolve_left hj)
      · exact Or.inr (by simpa [queueInit, hj] using hk)

omit [DecidableEq ν] in
lemma QueuesInit.denotes (h : QueuesInit N ks Q) : Denotes Q N (· ∈ ks) fun _ => [] := by
  obtain ⟨Q₀, hzero, rfl⟩ := h
  have hhead := fun k (hk : k ∈ ks) => foldl_queueInit_head ks Q₀ (Or.inl hk)
  refine ⟨fun _ _ => .nil, fun k hk => (hhead k hk).1, fun k hk => (hhead k hk).2.1,
    fun k hk => (hhead k hk).2.2, fun n hn k => ?_, by simp⟩
  rw [foldl_queueInit_q, (hzero n hn).2.2]
  simp

namespace Denotes

variable {K : κ → Prop} {L : κ → List ν}

/-- `queue_pop` returns the first node and leaves the rest. -/
lemma pop (h : Denotes Q N K L) {k : κ} (hk : K k) :
    (queuePop Q k).1 = (L k).head? ∧
      Denotes (queuePop Q k).2 N K (Function.update L k (L k).tail) := by
  cases hL : L k with
  | nil =>
    rw [h.pop_nil hk hL]
    refine ⟨rfl, ?_⟩
    rwa [List.tail_nil, ← hL, Function.update_eq_self]
  | cons n l =>
    obtain ⟨Q', heq, hQ'⟩ := h.pop_cons hL
    rw [heq]
    exact ⟨rfl, hQ'⟩

omit [DecidableEq κ] [DecidableEq ν] in
/-- Walking `i` links from the head. -/
lemma iterate_next (h : Denotes Q N K L) {k : κ} (hk : K k) (i : ℕ) :
    (fun node => node.bind Q.next)^[i] (Q.headNext k) = (L k)[i]? := by
  induction i with
  | zero => rw [Function.iterate_zero_apply, h.headNext k hk, List.head?_eq_getElem?]
  | succ i ih =>
    rw [Function.iterate_succ_apply', ih]
    by_cases hi : i < (L k).length
    · rw [List.getElem?_eq_getElem hi, Option.bind_some]
      have hsplit : L k = (L k).take i ++ (L k)[i] :: (L k).drop (i + 1) := by simp
      rw [((h.linked k hk).links _ _ _ hsplit).1, List.head?_drop]
    · rw [List.getElem?_eq_none (by omega), List.getElem?_eq_none (by omega)]
      rfl

omit [DecidableEq κ] [DecidableEq ν] in
/-- `queue_get` returns the node at the index, if there is one. -/
lemma get (h : Denotes Q N K L) {k : κ} (hk : K k) (i : ℕ) : queueGet Q k i = (L k)[i]? := by
  unfold queueGet queueSize
  rw [h.size k hk]
  split_ifs with hi
  · exact (List.getElem?_eq_none hi).symm
  · exact h.iterate_next hk i

end Denotes

/-- One operation. -/
lemma QueuesStep.denotes {Q' : Queues κ ν} {op : QueueOp κ ν} {L : κ → List ν}
    (h : Denotes Q N (· ∈ ks) L) (hs : QueuesStep N ks Q op Q') :
    ∃ L', Denotes Q' N (· ∈ ks) L' := by
  obtain ⟨hvalid, rfl⟩ := hs
  cases op with
  | push k n => exact ⟨_, h.push hvalid.2 hvalid.1⟩
  | pop k => exact ⟨_, (h.pop hvalid).2⟩
  | remove n => exact ⟨_, h.remove hvalid⟩

lemma Reachable.denotes (h : Reachable (QueuesInit N ks) (QueuesStep N ks) Q) :
    ∃ L, Denotes Q N (· ∈ ks) L :=
  h.invariant (P := fun Q => ∃ L, Denotes Q N (· ∈ ks) L) (fun _ h => ⟨_, h.denotes⟩)
    fun _ _ _ ⟨_, h⟩ hs => hs.denotes h

/-- After any operations, each queue stands for a duplicate-free list whose chain, read
from either end, is that list, and whose length is the `size` field; a node is in at most
one list, and `q` names its queue.  A push appends the node and takes it out of whichever
list held it, a pop returns the first node and leaves the rest of its list, a removal
deletes its node, and `queue_get` reads the list. -/
theorem queues_refine_lists (h : Reachable (QueuesInit N ks) (QueuesStep N ks) Q) :
    (∀ k ∈ ks, Linked Q.next Q.prev (Q.toList k) ∧ Q.headNext k = (Q.toList k).head? ∧
      Q.headPrev k = (Q.toList k).getLast? ∧
      Linked.chain Q.prev (Q.size k) (Q.headPrev k) = (Q.toList k).reverse ∧
      queueSize Q k = (Q.toList k).length) ∧
    (∀ n, N n → (Q.q n = none ∧ ∀ k ∈ ks, n ∉ Q.toList k) ∨
      ∃ k ∈ ks, Q.q n = some k ∧ ∀ j ∈ ks, n ∈ Q.toList j ↔ j = k) ∧
    (∀ k ∈ ks, ∀ n, N n → ∀ j ∈ ks, (queuePush Q k n).toList j =
      if j = k then (Q.toList k).erase n ++ [n] else (Q.toList j).erase n) ∧
    (∀ k ∈ ks, (queuePop Q k).1 = (Q.toList k).head? ∧ ∀ j ∈ ks,
      (queuePop Q k).2.toList j = if j = k then (Q.toList k).tail else Q.toList j) ∧
    (∀ n, N n → ∀ j ∈ ks, (queueRemove Q n).toList j = (Q.toList j).erase n) ∧
    ∀ k ∈ ks, ∀ i, queueGet Q k i = (Q.toList k)[i]? := by
  obtain ⟨L, hL⟩ := Reachable.denotes h
  have hlist : ∀ k ∈ ks, Q.toList k = L k := fun k hk => hL.toList_eq hk
  refine ⟨fun k hk => ?_, fun n hn => ?_, fun k hk n hn j hj => ?_, fun k hk => ?_,
    fun n hn j hj => ?_, fun k hk i => ?_⟩
  · rw [hlist k hk]
    refine ⟨hL.linked k hk, hL.headNext k hk, hL.headPrev k hk, ?_, hL.size k hk⟩
    rw [hL.headPrev k hk, hL.size k hk, ← List.head?_reverse]
    exact (hL.linked k hk).reverse.chain_eq (by simp)
  · cases hq : Q.q n with
    | none =>
      refine Or.inl ⟨rfl, fun k hk hmem => ?_⟩
      rw [hlist k hk, ← hL.q_iff n hn k, hq] at hmem
      simp at hmem
    | some k =>
      have hmem := (hL.q_iff n hn k).1 hq
      refine Or.inr ⟨k, (hL.live k n hmem).1, rfl, fun j hj => ?_⟩
      rw [hlist j hj]
      constructor
      · exact fun hj => hL.unique hj hmem
      · rintro rfl
        exact hmem
  · rw [(hL.push hn hk).toList_eq hj, hlist k hk, hlist j hj, Denotes.pushList,
      Function.update_apply]
  · obtain ⟨hfst, hpop⟩ := hL.pop hk
    refine ⟨by rw [hfst, hlist k hk], fun j hj => ?_⟩
    rw [hpop.toList_eq hj, hlist k hk, hlist j hj, Function.update_apply]
  · rw [(hL.remove hn).toList_eq hj, hlist j hj]
  · rw [hL.get hk, hlist k hk]

/-- Two queues and a node that moves from one to the other. -/
theorem queues_refine_lists_moved :
    let Q₀ : Queues Bool ℕ := ⟨fun _ => none, fun _ => none, fun _ => none, fun _ => some 7,
      fun _ => some 7, fun _ => 5⟩
    let Q := queuePush (queuePush ([false, true].foldl queueInit Q₀) false 0) true 0
    Q.toList false = [] ∧ Q.toList true = [0] ∧ queueGet Q true 0 = some 0 := by
  intro Q₀ Q
  have hreach : Reachable (QueuesInit (fun _ => True) [false, true])
      (QueuesStep (fun _ => True) [false, true]) Q :=
    .next (.push true 0) (.next (.push false 0)
      (.start ⟨Q₀, fun _ _ => ⟨rfl, rfl, rfl⟩, rfl⟩) ⟨⟨by simp, trivial⟩, rfl⟩)
      ⟨⟨by simp, trivial⟩, rfl⟩
  have hget := (queues_refine_lists hreach).2.2.2.2.2 true (by simp) 0
  exact ⟨rfl, rfl, hget.trans rfl⟩

end Gummy
