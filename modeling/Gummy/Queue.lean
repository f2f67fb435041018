import Gummy.Lib.Linked
import Mathlib.Logic.Function.Iterate

/-!
The intrusive queues of `queue.c`.

Nodes and queues are named by arbitrary types `ν` and `κ`, and the fields of
`queue_node_t` and `queue_t` are maps from these names.  Memory that holds no
live node or queue is part of the maps as well, with contents that mean nothing:
`Denotes` fixes which names are live, and says which list each live queue stands
for.  The field `size` is a number without bound, since memory has no room for as
many nodes as it can count.
-/

namespace Gummy

variable {κ ν : Type*}

/-- The fields of all `queue_node_t` and `queue_t` objects. -/
structure Queues (κ ν : Type*) where
  next : ν → Option ν
  prev : ν → Option ν
  q : ν → Option κ
  headNext : κ → Option ν
  headPrev : κ → Option ν
  size : κ → ℕ

namespace Queues

/-- The nodes linked in `k`, front first. -/
def toList (Q : Queues κ ν) (k : κ) : List ν := Linked.chain Q.next (Q.size k) (Q.headNext k)

end Queues

section Ops

variable [DecidableEq κ] [DecidableEq ν]

open Function (update)

/-- `queue_init` -/
def queueInit (Q : Queues κ ν) (k : κ) : Queues κ ν :=
  { Q with
    headPrev := update Q.headPrev k none
    headNext := update Q.headNext k none
    size := update Q.size k 0 }

/-- `queue_remove` -/
def queueRemove (Q : Queues κ ν) (node : ν) : Queues κ ν :=
  match Q.q node with
  | none => Q
  | some k =>
    let Q := match Q.prev node with
      | some p => { Q with next := update Q.next p (Q.next node) }
      | none => { Q with headNext := update Q.headNext k (Q.next node) }
    let Q := match Q.next node with
      | some n => { Q with prev := update Q.prev n (Q.prev node) }
      | none => { Q with headPrev := update Q.headPrev k (Q.prev node) }
    { Q with
      prev := update Q.prev node none
      next := update Q.next node none
      size := update Q.size k (Q.size k - 1)
      q := update Q.q node none }

/-- `queue_push` -/
def queuePush (Q : Queues κ ν) (k : κ) (node : ν) : Queues κ ν :=
  let Q := queueRemove Q node
  let Q := { Q with
    prev := update Q.prev node (Q.headPrev k)
    next := update Q.next node none }
  let Q := match Q.headPrev k with
    | some last => { Q with next := update Q.next last (some node) }
    | none => { Q with headNext := update Q.headNext k (some node) }
  { Q with
    q := update Q.q node (some k)
    headPrev := update Q.headPrev k (some node)
    size := update Q.size k (Q.size k + 1) }

/-- `queue_pop`: the node, `none` for `NULL`. -/
def queuePop (Q : Queues κ ν) (k : κ) : Option ν × Queues κ ν :=
  match Q.headNext k with
  | none => (none, Q)
  | some node =>
    let Q := { Q with
      q := update Q.q node none
      headNext := update Q.headNext k (Q.next node) }
    let Q := match Q.next node with
      | some n => { Q with prev := update Q.prev n none }
      | none => { Q with headPrev := update Q.headPrev k none }
    (some node, { Q with size := update Q.size k (Q.size k - 1) })

end Ops

/-- `queue_empty` -/
def queueEmpty (Q : Queues κ ν) (k : κ) : Bool := (Q.headNext k).isNone

/-- `queue_size` -/
def queueSize (Q : Queues κ ν) (k : κ) : ℕ := Q.size k

/-- `queue_get`: the node, `none` for `NULL`. -/
def queueGet (Q : Queues κ ν) (k : κ) (index : ℕ) : Option ν :=
  if index ≥ queueSize Q k then none
  else (fun node => node.bind Q.next)^[index] (Q.headNext k)

/-! ### What the queues denote -/

/-- With the live nodes `N` and the live queues `K`, queue `k` holds the list `L k`. -/
structure Denotes (Q : Queues κ ν) (N : ν → Prop) (K : κ → Prop) (L : κ → List ν) : Prop where
  linked : ∀ k, K k → Linked Q.next Q.prev (L k)
  headNext : ∀ k, K k → Q.headNext k = (L k).head?
  headPrev : ∀ k, K k → Q.headPrev k = (L k).getLast?
  size : ∀ k, K k → Q.size k = (L k).length
  q_iff : ∀ n, N n → ∀ k, Q.q n = some k ↔ n ∈ L k
  live : ∀ k, ∀ n ∈ L k, K k ∧ N n

namespace Denotes

variable {Q : Queues κ ν} {N : ν → Prop} {K : κ → Prop} {L : κ → List ν}

lemma toList_eq (h : Denotes Q N K L) {k : κ} (hk : K k) : Q.toList k = L k := by
  rw [Queues.toList, h.size k hk, h.headNext k hk]
  exact (h.linked k hk).chain_eq (Nat.le_refl _)

lemma nodup (h : Denotes Q N K L) (k : κ) : (L k).Nodup := by
  cases hL : L k with
  | nil => exact List.nodup_nil
  | cons n l => exact hL ▸ (h.linked k (h.live k n (by simp [hL])).1).nodup

/-- Only the fields of live nodes and queues matter. -/
lemma congr (h : Denotes Q N K L) {Q' : Queues κ ν}
    (hnode : ∀ n, N n → Q'.next n = Q.next n ∧ Q'.prev n = Q.prev n ∧ Q'.q n = Q.q n)
    (hqueue : ∀ k, K k →
      Q'.headNext k = Q.headNext k ∧ Q'.headPrev k = Q.headPrev k ∧ Q'.size k = Q.size k) :
    Denotes Q' N K L where
  linked k hk := (h.linked k hk).congr (fun n hn => (hnode n (h.live k n hn).2).1)
    fun n hn => (hnode n (h.live k n hn).2).2.1
  headNext k hk := (hqueue k hk).1.trans (h.headNext k hk)
  headPrev k hk := (hqueue k hk).2.1.trans (h.headPrev k hk)
  size k hk := (hqueue k hk).2.2.trans (h.size k hk)
  q_iff n hn k := by
    rw [(hnode n hn).2.2]
    exact h.q_iff n hn k
  live := h.live

/-- A node is linked in one queue at most. -/
lemma unique (h : Denotes Q N K L) {n : ν} {k k' : κ} (hk : n ∈ L k) (hk' : n ∈ L k') :
    k = k' := by
  have hn := (h.live k n hk).2
  exact Option.some.inj (((h.q_iff n hn k).2 hk).symm.trans ((h.q_iff n hn k').2 hk'))

lemma queueEmpty_iff (h : Denotes Q N K L) {k : κ} (hk : K k) :
    queueEmpty Q k = true ↔ L k = [] := by
  rw [queueEmpty, h.headNext k hk]
  cases L k <;> simp

variable [DecidableEq κ]

open Function (update)

/-- Editing queue `k` in place so that it holds `l`: the heads, the owner fields
and the links may change for `k` and for nodes that are or were in it. -/
lemma edit (h : Denotes Q N K L) {Q' : Queues κ ν} {k : κ} {l : List ν} (hk : K k)
    (hlinked : Linked Q'.next Q'.prev l) (hhead : Q'.headNext = update Q.headNext k l.head?)
    (hlast : Q'.headPrev = update Q.headPrev k l.getLast?)
    (hsize : Q'.size = update Q.size k l.length)
    (hlinks : ∀ x, x ∉ L k → x ∉ l → Q'.next x = Q.next x ∧ Q'.prev x = Q.prev x)
    (hown : ∀ n, N n → (Q'.q n = some k ↔ n ∈ l))
    (hother : ∀ n, N n → ∀ k', k' ≠ k → (Q'.q n = some k' ↔ n ∈ L k'))
    (hlive : ∀ n ∈ l, N n) : Denotes Q' N K (update L k l) := by
  constructor
  · intro k' hk'
    by_cases hkk : k' = k
    · subst hkk
      simpa using hlinked
    · rw [Function.update_of_ne hkk]
      have hout : ∀ x ∈ L k', Q'.next x = Q.next x ∧ Q'.prev x = Q.prev x := fun x hx => by
        have hN := (h.live k' x hx).2
        refine hlinks x (fun hx' => hkk (h.unique hx hx')) fun hx' => hkk ?_
        exact Option.some.inj (((hother x hN k' hkk).2 hx).symm.trans ((hown x hN).2 hx'))
      exact (h.linked k' hk').congr (fun x hx => (hout x hx).1) fun x hx => (hout x hx).2
  · intro k' hk'
    by_cases hkk : k' = k
    · subst hkk
      simp [hhead]
    · simp [hhead, hkk, h.headNext k' hk']
  · intro k' hk'
    by_cases hkk : k' = k
    · subst hkk
      simp [hlast]
    · simp [hlast, hkk, h.headPrev k' hk']
  · intro k' hk'
    by_cases hkk : k' = k
    · subst hkk
      simp [hsize]
    · simp [hsize, hkk, h.size k' hk']
  · intro n hn k'
    by_cases hkk : k' = k
    · subst hkk
      simpa using hown n hn
    · simpa [hkk] using hother n hn k' hkk
  · intro k' n hn
    by_cases hkk : k' = k
    · subst hkk
      exact ⟨hk, hlive n (by simpa using hn)⟩
    · exact h.live k' n (by simpa [hkk] using hn)

variable [DecidableEq ν]

lemma setAt_of_not_mem {l : List ν} {link : ν → Option ν} {o v : Option ν} {x : ν}
    (ho : ∀ y, o = some y → y ∈ l) (hx : x ∉ l) : Linked.setAt link o v x = link x := by
  rw [Linked.setAt, if_neg fun h => hx (ho x h)]

/-- The fields after `queue_remove` of a linked node, each given once. -/
lemma queueRemove_eq {n : ν} {k : κ} (hq : Q.q n = some k) (hself : Q.prev n ≠ some n) :
    queueRemove Q n =
      { next := update (Linked.setAt Q.next (Q.prev n) (Q.next n)) n none
        prev := update (Linked.setAt Q.prev (Q.next n) (Q.prev n)) n none
        q := update Q.q n none
        headNext := if Q.prev n = none then update Q.headNext k (Q.next n) else Q.headNext
        headPrev := if Q.next n = none then update Q.headPrev k (Q.prev n) else Q.headPrev
        size := update Q.size k (Q.size k - 1) } := by
  rw [queueRemove, hq]
  cases hp : Q.prev n with
  | none => cases hn : Q.next n <;> simp [hn, hp, Linked.setAt_none, Linked.setAt_some]
  | some p =>
    have hpn : n ≠ p := by
      rintro rfl
      exact hself hp
    cases hn : Q.next n <;>
      simp [hn, hp, hpn, Linked.setAt_none, Linked.setAt_some]

/-- The lists after a node has been removed. -/
lemma erase_eq_update (h : Denotes Q N K L) {n : ν} {k : κ} (hn : n ∈ L k) :
    (fun k' => (L k').erase n) = update L k ((L k).erase n) := by
  funext k'
  by_cases hkk : k' = k
  · subst hkk
    simp
  · rw [Function.update_of_ne hkk, List.erase_of_not_mem fun hn' => hkk (h.unique hn' hn)]

/-- `queue_remove` deletes exactly its node, from whichever queue holds it. -/
theorem remove (h : Denotes Q N K L) {n : ν} (hn : N n) :
    Denotes (queueRemove Q n) N K fun k => (L k).erase n := by
  cases hq : Q.q n with
  | none =>
    have hnot : ∀ k, n ∉ L k := fun k hk => by simp [(h.q_iff n hn k).2 hk] at hq
    have hL : (fun k => (L k).erase n) = L := funext fun k => List.erase_of_not_mem (hnot k)
    rw [hL, queueRemove, hq]
    exact h
  | some k =>
    have hnk : n ∈ L k := (h.q_iff n hn k).1 hq
    have hk : K k := (h.live k n hnk).1
    obtain ⟨A, B, hL⟩ := List.append_of_mem hnk
    have hlink := hL ▸ h.linked k hk
    have hnd := hlink.nodup
    have hnA : n ∉ A := fun hA => (List.nodup_append.1 hnd).2.2 n hA n (by simp) rfl
    have hnB : n ∉ B := (List.nodup_cons.1 (List.nodup_append.1 hnd).2.1).1
    have hnext := hlink.next_of_eq_append
    have hprev := hlink.prev_of_eq_append
    have hself : Q.prev n ≠ some n := fun hs => hnA (List.mem_of_getLast? (hprev ▸ hs))
    have herase : (L k).erase n = A ++ B := by
      rw [hL, List.erase_append_right _ hnA, List.erase_cons_head]
    have hmem : ∀ x, x ∈ A ++ B ↔ x ∈ L k ∧ x ≠ n := fun x => by
      rw [← herase, (h.nodup k).mem_erase_iff, and_comm]
    rw [queueRemove_eq hq hself, h.erase_eq_update hnk, herase]
    apply h.edit hk <;> try dsimp only
    · refine hlink.unlink.congr (fun x hx => ?_) fun x hx => ?_
      all_goals exact Function.update_of_ne ((hmem x).1 hx).2 _ _
    · rw [hprev, hnext]
      obtain rfl | ⟨A, a, rfl⟩ := A.eq_nil_or_concat'
      · simp
      · have hhead := h.headNext k hk
        rw [hL] at hhead
        rw [if_neg (by simp), Function.eq_update_self_iff, hhead]
        cases A <;> simp
    · rw [hprev, hnext]
      cases B with
      | nil => simp
      | cons b B =>
        have hlast := h.headPrev k hk
        rw [hL] at hlast
        rw [if_neg (List.cons_ne_nil b B ∘ List.head?_eq_none_iff.1), Function.eq_update_self_iff,
          hlast]
        simp [List.getLast?_append]
    · rw [h.size k hk, hL]
      congr 1
      simp
    · intro x hx hx'
      have hxn : x ≠ n := fun hxn => hx (hxn ▸ hnk)
      simp only [Function.update_of_ne hxn]
      constructor
      · refine setAt_of_not_mem (fun y hy => ?_) hx
        simp [hL, List.mem_of_getLast? (hprev ▸ hy)]
      · refine setAt_of_not_mem (fun y hy => ?_) hx
        simp [hL, List.mem_of_head? (hnext ▸ hy)]
    · intro m hm
      rw [hmem, ← h.q_iff m hm]
      by_cases hmn : m = n <;> simp [hmn]
    · intro m hm k' hkk
      rw [← h.q_iff m hm]
      by_cases hmn : m = n
      · subst hmn
        simp [hq, Ne.symm hkk]
      · simp [hmn]
    · intro m hm
      exact (h.live k m ((hmem m).1 hm).1).2

/-- The fields after `queue_push` of a node that no queue holds, each given once. -/
private def append (Q : Queues κ ν) (k : κ) (n : ν) : Queues κ ν :=
  { next := Linked.setAt (update Q.next n none) (Q.headPrev k) (some n)
    prev := update Q.prev n (Q.headPrev k)
    q := update Q.q n (some k)
    headNext := if Q.headPrev k = none then update Q.headNext k (some n) else Q.headNext
    headPrev := update Q.headPrev k (some n)
    size := update Q.size k (Q.size k + 1) }

private lemma append_denotes (h : Denotes Q N K L) {n : ν} {k : κ} (hn : N n) (hk : K k)
    (hfree : ∀ k', n ∉ L k') : Denotes (append Q k n) N K (update L k (L k ++ [n])) := by
  have hqn : ∀ k', Q.q n ≠ some k' := fun k' hq => hfree k' ((h.q_iff n hn k').1 hq)
  have hlast := h.headPrev k hk
  apply h.edit hk <;> try dsimp only [append]
  · rw [hlast]
    exact (h.linked k hk).concat (hfree k)
  · rw [hlast]
    obtain hL | ⟨A, a, hL⟩ := (L k).eq_nil_or_concat'
    · simp [hL]
    · have hhead := h.headNext k hk
      rw [hL] at hhead ⊢
      rw [if_neg (by simp), Function.eq_update_self_iff, hhead]
      cases A <;> simp
  · simp
  · simp [h.size k hk]
  · intro x hx hx'
    have hxn : x ≠ n := by
      rintro rfl
      simp at hx'
    rw [setAt_of_not_mem (fun y hy => List.mem_of_getLast? (hlast ▸ hy)) hx]
    simp [hxn]
  · intro m hm
    by_cases hmn : m = n <;> simp [hmn, h.q_iff m hm]
  · intro m hm k' hkk
    rw [← h.q_iff m hm]
    by_cases hmn : m = n
    · subst hmn
      simp [hqn, Ne.symm hkk]
    · simp [hmn]
  · intro m hm
    obtain hm | hm := List.mem_append.1 hm
    · exact (h.live k m hm).2
    · exact List.mem_singleton.1 hm ▸ hn

/-- The lists after `queue_push k n`. -/
def pushList (L : κ → List ν) (k : κ) (n : ν) : κ → List ν :=
  update (fun k' => (L k').erase n) k ((L k).erase n ++ [n])

@[simp] lemma pushList_self (L : κ → List ν) (k : κ) (n : ν) :
    pushList L k n k = (L k).erase n ++ [n] :=
  Function.update_self ..

lemma pushList_of_ne (L : κ → List ν) {k k' : κ} (n : ν) (h : k' ≠ k) :
    pushList L k n k' = (L k').erase n :=
  Function.update_of_ne h ..

/-- `queue_push` takes the node out of whichever queue holds it and appends it. -/
theorem push (h : Denotes Q N K L) {n : ν} {k : κ} (hn : N n) (hk : K k) :
    Denotes (queuePush Q k n) N K (pushList L k n) := by
  have hrem := h.remove hn
  have hnot : ∀ k', n ∉ (L k').erase n := fun k' => (h.nodup k').not_mem_erase
  have hqn : ∀ k', (queueRemove Q n).q n ≠ some k' := fun k' hq =>
    hnot k' ((hrem.q_iff n hn k').1 hq)
  have hstep : queuePush Q k n = append (queueRemove Q n) k n := by
    rw [queuePush, append]
    generalize queueRemove Q n = R
    cases R.headPrev k <;> simp [Linked.setAt_none, Linked.setAt_some]
  rw [hstep]
  exact append_denotes hrem hn hk hnot

/-- A push removes the node from wherever it is, so taking it off the front of a queue
first makes no difference. -/
lemma pushList_update_tail (h : Denotes Q N K L) {n : ν} {k k' : κ} {l : List ν}
    (hL : L k = n :: l) : pushList (update L k l) k' n = pushList L k' n := by
  have hnl : n ∉ l := (List.nodup_cons.1 (hL ▸ h.nodup k)).1
  have herase : ∀ j, (update L k l j).erase n = (L j).erase n := by
    intro j
    by_cases hj : j = k
    · subst hj
      rw [Function.update_self, hL, List.erase_cons_head, List.erase_of_not_mem hnl]
    · rw [Function.update_of_ne hj]
  simp only [pushList, herase]

omit [DecidableEq κ] in
lemma mem_erase_iff (h : Denotes Q N K L) {m n : ν} {k : κ} :
    m ∈ (L k).erase n ↔ m ∈ L k ∧ m ≠ n := by
  rw [(h.nodup k).mem_erase_iff, and_comm]

lemma mem_pushList {L : κ → List ν} (h : ∀ k, (L k).Nodup) {m n : ν} {k k' : κ} :
    m ∈ pushList L k n k' ↔ (m ∈ L k' ∧ m ≠ n) ∨ (k' = k ∧ m = n) := by
  by_cases hkk : k' = k
  · subst hkk
    simp [(h k').mem_erase_iff, and_comm]
  · simp [pushList_of_ne L n hkk, (h k').mem_erase_iff, hkk, and_comm]

lemma nodup_pushList {L : κ → List ν} (h : ∀ k, (L k).Nodup) (k : κ) (n : ν) (k' : κ) :
    (pushList L k n k').Nodup := by
  by_cases hkk : k' = k
  · subst hkk
    rw [pushList_self]
    exact List.nodup_append.2 ⟨(h k').erase n, List.nodup_singleton n, by
      simpa using fun x hx => ((h k').mem_erase_iff.1 hx).1⟩
  · rw [pushList_of_ne L n hkk]
    exact (h k').erase n

/-- Removing the node first makes no difference. -/
theorem remove_push (h : Denotes Q N K L) {n : ν} {k : κ} (hn : N n) (hk : K k) :
    Denotes (queuePush (queueRemove Q n) k n) N K (pushList L k n) := by
  have hpush := (h.remove hn).push hn hk
  have hL : pushList (fun k => (L k).erase n) k n = pushList L k n := by
    have herase : ∀ k', ((L k').erase n).erase n = (L k').erase n := fun k' =>
      List.erase_of_not_mem (h.nodup k').not_mem_erase
    funext k'
    simp only [pushList, herase]
  exact hL ▸ hpush

/-- `queue_pop` on an empty queue. -/
theorem pop_nil (h : Denotes Q N K L) {k : κ} (hk : K k) (hL : L k = []) :
    queuePop Q k = (none, Q) := by
  rw [queuePop, h.headNext k hk, hL]
  rfl

/-- `queue_pop` takes the first node out. -/
theorem pop_cons (h : Denotes Q N K L) {k : κ} {n : ν} {l : List ν} (hL : L k = n :: l) :
    ∃ Q', queuePop Q k = (some n, Q') ∧ Denotes Q' N K (update L k l) := by
  have hk : K k := (h.live k n (by simp [hL])).1
  have hlink := hL ▸ h.linked k hk
  have hnext : Q.next n = l.head? := hlink.next_of_eq_append (A := [])
  have hnl : n ∉ l := (List.nodup_cons.1 hlink.nodup).1
  have hhead : Q.headNext k = some n := by simp [h.headNext k hk, hL]
  refine ⟨{ Q with
      prev := Linked.setAt Q.prev l.head? none
      q := update Q.q n none
      headNext := update Q.headNext k l.head?
      headPrev := if l = [] then update Q.headPrev k none else Q.headPrev
      size := update Q.size k (Q.size k - 1) }, ?_, ?_⟩
  · rw [queuePop, hhead]
    cases l <;> simp [hnext, Linked.setAt_none, Linked.setAt_some]
  · have hunlink := hlink.unlink (A := [])
    rw [hlink.prev_of_eq_append (A := []), hnext] at hunlink
    apply h.edit hk <;> try dsimp only
    · simpa [Linked.setAt_none] using hunlink
    · cases l with
      | nil => simp
      | cons m l =>
        rw [if_neg (List.cons_ne_nil m l), Function.eq_update_self_iff, h.headPrev k hk, hL]
        simp
    · rw [h.size k hk, hL]
      simp
    · intro x hx _
      refine ⟨rfl, setAt_of_not_mem (fun y hy => ?_) hx⟩
      simp [hL, List.mem_of_head? hy]
    · intro m hm
      by_cases hmn : m = n
      · simp [hmn, hnl]
      · simp [hmn, h.q_iff m hm, hL]
    · intro m hm k' hkk
      rw [← h.q_iff m hm]
      by_cases hmn : m = n
      · subst hmn
        simp [(h.q_iff m hm k).2 (by simp [hL]), Ne.symm hkk]
      · simp [hmn]
    · intro m hm
      exact (h.live k m (by simp [hL, hm])).2

end Denotes

end Gummy
