import UProtocols.LockFreeQueueC

/-!
# Where the tail of the C queue points

The nodes in use form a chain that starts at `head`, or one node before it while the old
head waits to be freed. `queue_dequeue` moves `head` by `next` alone, so `tail` falls
behind `head` when it is still at the old head; and an `enqueue` call that holds a freed
node as `prev_tail` may take a new node at the same address for it. Without these two,
every pointer of a thread stays on the chain.
-/

namespace UProtocols
namespace LockFreeQueueC

variable {n : ℕ} {q : Queue} {chain : List Addr} {k : ℕ}

namespace Queue

def next (q : Queue) (a : Addr) : Option Addr := (q.heap a).next

/-- The chain of the nodes in use, with `head` at position `k` and `tail` there or
behind it. -/
structure Spine (q : Queue) (chain : List Addr) (k : ℕ) : Prop where
  chained : LinkedChain q.next chain
  allocated : ∀ a ∈ chain, a ∈ q.allocated
  head_at : chain[k]? = some q.head
  tail_at : ∃ t, k ≤ t ∧ chain[t]? = some q.tail

/-- A node that its call has not linked yet. -/
structure Private (q : Queue) (chain : List Addr) (node : Addr) (cleared : Bool) : Prop where
  allocated : node ∈ q.allocated
  notMem : node ∉ chain
  cleared : cleared → q.next node = none

theorem spine_create : Spine create [0] 0 where
  chained := ⟨List.nodup_singleton 0,by
    intro k a hk
    cases k with
    | zero => rfl
    | succ k => simp at hk⟩
  allocated := by simp [create]
  head_at := rfl
  tail_at := ⟨0,Nat.le_refl 0,rfl⟩

/-! ## The operations -/

theorem next_setNext (q : Queue) (a : Addr) (v : Option Addr) :
    (q.setNext a v).next = Function.update q.next a v := by
  funext b
  by_cases hb : b = a
  · subst hb
    simp [next,setNext]
  · simp [next,setNext,hb]

theorem next_malloc (q : Queue) (node : Addr) (msg : WsMessage) :
    (q.malloc node msg).next = q.next := by
  funext b
  by_cases hb : b = node
  · subst hb
    simp [next,malloc]
  · simp [next,malloc,hb]

theorem Spine.malloc (h : q.Spine chain k) (node : Addr) (msg : WsMessage) :
    (q.malloc node msg).Spine chain k where
  chained := by
    rw [next_malloc]
    exact h.chained
  allocated := fun a ha => Finset.mem_insert_of_mem (h.allocated a ha)
  head_at := h.head_at
  tail_at := h.tail_at

theorem Private.malloc {a : Addr} {b : Bool} (h : q.Private chain a b) (node : Addr)
    (msg : WsMessage) : (q.malloc node msg).Private chain a b where
  allocated := Finset.mem_insert_of_mem h.allocated
  notMem := h.notMem
  cleared := by
    rw [next_malloc]
    exact h.cleared

/-- A new node is private, with whatever `next` the memory holds. -/
theorem Spine.private_malloc (h : q.Spine chain k) {node : Addr} (hnode : node ∉ q.allocated)
    (msg : WsMessage) : (q.malloc node msg).Private chain node false where
  allocated := Finset.mem_insert_self _ _
  notMem := fun hmem => hnode (h.allocated node hmem)
  cleared := nofun

theorem Spine.storeNull (h : q.Spine chain k) {node : Addr} (hnode : node ∉ chain) :
    (q.setNext node none).Spine chain k where
  chained := by
    rw [next_setNext]
    apply h.chained.congr
    intro a ha
    have hne : a ≠ node := by
      rintro rfl
      exact hnode ha
    exact Function.update_of_ne hne _ _
  allocated := h.allocated
  head_at := h.head_at
  tail_at := h.tail_at

/-- Linking a cleared private node behind the last one. -/
theorem Spine.link (h : q.Spine chain k) {p node : Addr} (hp : p ∈ chain)
    (hnone : q.next p = none) (hnode : q.Private chain node true) :
    (q.setNext p (some node)).Spine (chain ++ [node]) k where
  chained := by
    obtain ⟨j,hj⟩ := List.mem_iff_getElem?.mp hp
    rw [next_setNext]
    exact h.chained.snoc hj hnone hnode.notMem (hnode.cleared rfl)
  allocated := by
    intro a ha
    rw [List.mem_append,List.mem_singleton] at ha
    obtain ha | rfl := ha
    · exact h.allocated a ha
    · exact hnode.allocated
  head_at := getElem?_of_isPrefix (List.prefix_append _ _) h.head_at
  tail_at := by
    obtain ⟨t,hkt,ht⟩ := h.tail_at
    exact ⟨t,hkt,getElem?_of_isPrefix (List.prefix_append _ _) ht⟩

theorem Private.setNext {node a : Addr} {b : Bool} (h : q.Private chain node b) (hne : node ≠ a)
    (v : Option Addr) : (q.setNext a v).Private chain node b where
  allocated := h.allocated
  notMem := h.notMem
  cleared := by
    rw [next_setNext,Function.update_of_ne hne]
    exact h.cleared

theorem Private.snoc {node a : Addr} {b : Bool} (h : q.Private chain node b) (hne : node ≠ a) :
    q.Private (chain ++ [a]) node b where
  allocated := h.allocated
  notMem := by
    rw [List.mem_append,List.mem_singleton]
    exact not_or.mpr ⟨h.notMem,hne⟩
  cleared := h.cleared

theorem casTail_eq (q : Queue) (old new : Addr) :
    q.casTail old new = {q with tail := (q.casTail old new).tail} := by
  rw [casTail]
  split_ifs <;> rfl

theorem Private.casTail {node : Addr} {b : Bool} (h : q.Private chain node b) (old new : Addr) :
    (q.casTail old new).Private chain node b := by
  rw [casTail_eq]
  exact ⟨h.allocated,h.notMem,h.cleared⟩

/-- `tail` only ever moves one position on. -/
theorem Spine.casTail (h : q.Spine chain k) {j : ℕ} {old new : Addr} (hold : chain[j]? = some old)
    (hnew : chain[j + 1]? = some new) : (q.casTail old new).Spine chain k := by
  rw [Queue.casTail]
  split_ifs with heq
  · refine ⟨h.chained,h.allocated,h.head_at,?_⟩
    obtain ⟨t,hkt,ht⟩ := h.tail_at
    have htj : t = j := h.chained.index_unique ht (heq ▸ hold)
    exact ⟨j + 1,by omega,hnew⟩
  · exact h

/-- `head` moves on to the next node, with `tail` no longer at the old head. -/
theorem Spine.storeHead (h : q.Spine chain 0) {new : Addr} (hnew : chain[1]? = some new)
    (htail : q.tail ≠ q.head) : ({q with head := new} : Queue).Spine chain 1 := by
  refine ⟨h.chained,h.allocated,hnew,?_⟩
  obtain ⟨t,-,ht⟩ := h.tail_at
  have hpos : t ≠ 0 := by
    rintro rfl
    exact htail (Option.some.inj (ht.symm.trans h.head_at))
  exact ⟨t,Nat.one_le_iff_ne_zero.mpr hpos,ht⟩

/-- Freeing the node before `head`. -/
theorem Spine.free {first : Addr} (h : q.Spine (first::chain) 1) :
    (q.free first).Spine chain 0 where
  chained := h.chained.tail
  allocated := by
    intro a ha
    have hne : a ≠ first := by
      rintro rfl
      exact (List.nodup_cons.mp h.chained.nodup).1 ha
    exact Finset.mem_erase.mpr ⟨hne,h.allocated a (List.mem_cons_of_mem _ ha)⟩
  head_at := h.head_at
  tail_at := by
    obtain ⟨t,hle,ht⟩ := h.tail_at
    cases t with
    | zero => omega
    | succ t => exact ⟨t,Nat.zero_le t,ht⟩

theorem Private.free {first node : Addr} {b : Bool} (h : q.Private (first::chain) node b) :
    (q.free first).Private chain node b where
  allocated := Finset.mem_erase.mpr ⟨fun heq => h.notMem (heq ▸ List.mem_cons_self),h.allocated⟩
  notMem := fun hmem => h.notMem (List.mem_cons_of_mem _ hmem)
  cleared := h.cleared

theorem Spine.reaches_tail (h : q.Spine chain k) : q.Reaches q.head q.tail := by
  obtain ⟨t,hkt,ht⟩ := h.tail_at
  exact h.chained.reaches h.head_at ht hkt

/-- The last node of the chain is reachable. -/
theorem Spine.reaches_last (h : q.Spine chain k) {p : Addr} (hp : p ∈ chain)
    (hnone : q.next p = none) : q.Reaches q.head p := by
  obtain ⟨j,hj⟩ := List.mem_iff_getElem?.mp hp
  have hlen := h.chained.length_of_next_none hj hnone
  have hlt := (List.getElem?_eq_some_iff.mp h.head_at).1
  exact h.chained.reaches h.head_at hj (by omega)

end Queue

/-! ## What a thread knows -/

/-- Where the locals of a `queue_enqueue` call stand on the chain. -/
def Enqueue.Placed (chain : List Addr) (c : Enqueue) : Prop :=
  match c.step with
  | .linkNext p => p ∈ chain
  | .loadNext p => p ∈ chain
  | .helpTail p next => ∃ j, chain[j]? = some p ∧ chain[j + 1]? = some next
  | .swingTail p => ∃ j, chain[j]? = some p ∧ chain[j + 1]? = some c.node
  | _ => True

/-- The old head is behind `head` until the call frees it. -/
def Dequeue.offset : Dequeue → ℕ
  | .subCount _ _ => 1
  | .freeHead _ _ => 1
  | _ => 0

def Dequeue.Placed (q : Queue) (chain : List Addr) : Dequeue → Prop
  | .loadHead => True
  | .loadNext head => head = q.head
  | .copyMessage head next => head = q.head ∧ chain[1]? = some next
  | .storeHead head next _ => head = q.head ∧ chain[1]? = some next
  | .subCount head _ => chain[0]? = some head
  | .freeHead head _ => chain[0]? = some head

theorem Enqueue.Placed.mono {chain' : List Addr} {c : Enqueue} (h : c.Placed chain)
    (hpre : chain <+: chain') : c.Placed chain' := by
  rw [Enqueue.Placed] at h ⊢
  cases hstep : c.step with
  | linkNext p =>
    simp only [hstep] at h
    exact hpre.subset h
  | loadNext p =>
    simp only [hstep] at h
    exact hpre.subset h
  | helpTail p next =>
    simp only [hstep] at h
    obtain ⟨j,hj,hn⟩ := h
    exact ⟨j,getElem?_of_isPrefix hpre hj,getElem?_of_isPrefix hpre hn⟩
  | swingTail p =>
    simp only [hstep] at h
    obtain ⟨j,hj,hn⟩ := h
    exact ⟨j,getElem?_of_isPrefix hpre hj,getElem?_of_isPrefix hpre hn⟩
  | _ => trivial

/-- A call that does not hold the first node does not miss it. -/
theorem Enqueue.Placed.free {first : Addr} {c : Enqueue} (h : c.Placed (first::chain))
    (hne : c.step.prevTail ≠ some first) : c.Placed chain := by
  have hmem : ∀ p, c.step.prevTail = some p → p ∈ first::chain → p ∈ chain := by
    intro p hp hmem
    rw [hp] at hne
    exact (List.mem_cons.mp hmem).resolve_left fun heq => hne (heq ▸ rfl)
  have hpair : ∀ p next, c.step.prevTail = some p →
      (∃ j, (first::chain)[j]? = some p ∧ (first::chain)[j + 1]? = some next) →
      ∃ j, chain[j]? = some p ∧ chain[j + 1]? = some next := by
    rintro p next hp ⟨j,hj,hn⟩
    cases j with
    | zero =>
      rw [hp] at hne
      exact absurd hj.symm hne
    | succ j => exact ⟨j,hj,hn⟩
  rw [Enqueue.Placed] at h ⊢
  cases hstep : c.step with
  | linkNext p =>
    simp only [hstep] at h
    exact hmem p (by rw [hstep]; rfl) h
  | loadNext p =>
    simp only [hstep] at h
    exact hmem p (by rw [hstep]; rfl) h
  | helpTail p next =>
    simp only [hstep] at h
    exact hpair p next (by rw [hstep]; rfl) h
  | swingTail p =>
    simp only [hstep] at h
    exact hpair p c.node (by rw [hstep]; rfl) h
  | _ => trivial

theorem Dequeue.Placed.mono {r : Queue} {chain' : List Addr} {d : Dequeue} (h : d.Placed q chain)
    (hpre : chain <+: chain') (hhead : r.head = q.head) : d.Placed r chain' := by
  cases d with
  | loadHead => trivial
  | loadNext head => exact h.trans hhead.symm
  | copyMessage head next => exact ⟨h.1.trans hhead.symm,getElem?_of_isPrefix hpre h.2⟩
  | storeHead head next message => exact ⟨h.1.trans hhead.symm,getElem?_of_isPrefix hpre h.2⟩
  | subCount head message => exact getElem?_of_isPrefix hpre h
  | freeHead head message => exact getElem?_of_isPrefix hpre h

/-- Everything that an operation of `queue_enqueue` can do: store its `NULL`, move on,
link its node, move `tail` on, or count and return. -/
theorem Enqueue.advance_cases {c : Enqueue} (hq : q.Spine chain k) (hc : c.Placed chain)
    (spurious : Bool) :
    (c.step = .storeNull ∧
      c.advance q spurious = (q.setNext c.node none,some (c.goto .loadTail))) ∨
    (∃ st, c.advance q spurious = (q,some (c.goto st)) ∧ c.step.unlinked ∧ c.step.cleared ∧
      st.unlinked ∧ (c.goto st).Placed chain) ∨
    (∃ p, c.step = .linkNext p ∧ p ∈ chain ∧ q.next p = none ∧
      c.advance q spurious = (q.setNext p (some c.node),some (c.goto (.swingTail p)))) ∨
    (∃ j old new st, chain[j]? = some old ∧ chain[j + 1]? = some new ∧
      c.advance q spurious = (q.casTail old new,some (c.goto st)) ∧
      st.unlinked = c.step.unlinked ∧ c.step.cleared ∧ (st = .loadTail ∨ st = .addCount)) ∨
    (c.step = .addCount ∧ c.advance q spurious = ({q with count := q.count + 1},none)) := by
  rw [Enqueue.Placed] at hc
  cases hstep : c.step with
  | storeNull =>
    left
    exact ⟨rfl,by simp only [advance,hstep]⟩
  | loadTail =>
    right
    left
    obtain ⟨t,-,ht⟩ := hq.tail_at
    exact ⟨.linkNext q.tail,by simp only [advance,hstep],rfl,rfl,rfl,List.mem_of_getElem? ht⟩
  | linkNext p =>
    simp only [hstep] at hc
    by_cases hlink : (q.heap p).next = none ∧ spurious = false
    · exact .inr (.inr (.inl
        ⟨p,rfl,hc,hlink.1,by simp only [advance,hstep,if_pos hlink]⟩))
    · right
      left
      exact ⟨.loadNext p,by simp only [advance,hstep,if_neg hlink],rfl,rfl,rfl,hc⟩
  | loadNext p =>
    right
    left
    simp only [hstep] at hc
    cases hnext : (q.heap p).next with
    | none => exact ⟨.loadTail,by simp only [advance,hstep,hnext],rfl,rfl,rfl,trivial⟩
    | some next =>
      obtain ⟨j,hj⟩ := List.mem_iff_getElem?.mp hc
      exact ⟨.helpTail p next,by simp only [advance,hstep,hnext],rfl,rfl,rfl,
        j,hj,(hq.chained.next_eq hj).symm.trans hnext⟩
  | helpTail p next =>
    simp only [hstep] at hc
    obtain ⟨j,hj,hn⟩ := hc
    exact .inr (.inr (.inr (.inl
      ⟨j,p,next,.loadTail,hj,hn,by simp only [advance,hstep],rfl,rfl,.inl rfl⟩)))
  | swingTail p =>
    simp only [hstep] at hc
    obtain ⟨j,hj,hn⟩ := hc
    exact .inr (.inr (.inr (.inl
      ⟨j,p,c.node,.addCount,hj,hn,by simp only [advance,hstep],rfl,rfl,.inr rfl⟩)))
  | addCount => exact .inr (.inr (.inr (.inr ⟨rfl,by simp only [advance,hstep]⟩)))

/-- What an operation of the call `c` guarantees: to the chain, to the nodes of other
calls, and to the call that goes on. -/
structure Enqueue.Guarantee (q r : Queue) (chain chain' : List Addr) (k : ℕ) (c : Enqueue)
    (c' : Option Enqueue) : Prop where
  spine : r.Spine chain' k
  grows : chain <+: chain'
  head : r.head = q.head
  others : ∀ node b, q.Private chain node b → (c.step.unlinked → node ≠ c.node) →
    r.Private chain' node b
  placed : ∀ d, c' = some d → d.Placed chain'
  owned : ∀ d, c' = some d → d.step.unlinked →
    c.step.unlinked ∧ d.node = c.node ∧ r.Private chain' d.node d.step.cleared

theorem Enqueue.guarantee {c : Enqueue} (hq : q.Spine chain k) (hc : c.Placed chain)
    (hown : c.step.unlinked → q.Private chain c.node c.step.cleared) (spurious : Bool) :
    ∃ chain', Guarantee q (c.advance q spurious).1 chain chain' k c
      (c.advance q spurious).2 := by
  obtain ⟨hstep,hadv⟩ | ⟨st,hadv,hun,hclear,hun',hplaced⟩ | ⟨p,hstep,hp,hnone,hadv⟩ |
    ⟨j,old,new,st,hold,hnew,hadv,hun,hclear,hst⟩ | ⟨hstep,hadv⟩ := advance_cases hq hc spurious
  · have hun : c.step.unlinked := by rw [hstep]; rfl
    have hnode := hown hun
    rw [hadv]
    refine ⟨chain,hq.storeNull hnode.notMem,List.prefix_refl _,rfl,
      fun _ _ h hne => h.setNext (hne hun) none,?_,?_⟩
    · rintro d ⟨⟩
      trivial
    · rintro d ⟨⟩ -
      refine ⟨hun,rfl,hnode.allocated,hnode.notMem,fun _ => ?_⟩
      rw [Queue.next_setNext]
      exact Function.update_self _ _ _
  · rw [hadv]
    refine ⟨chain,hq,List.prefix_refl _,rfl,fun _ _ h _ => h,?_,?_⟩
    · rintro d ⟨⟩
      exact hplaced
    · rintro d ⟨⟩ -
      have hnode := hown hun
      exact ⟨hun,rfl,hnode.allocated,hnode.notMem,fun _ => hnode.cleared hclear⟩
  · have hun : c.step.unlinked := by rw [hstep]; rfl
    have hnode : q.Private chain c.node true := by
      have h := hown hun
      rw [hstep] at h
      exact h
    rw [hadv]
    refine ⟨chain ++ [c.node],hq.link hp hnone hnode,List.prefix_append _ _,rfl,?_,?_,?_⟩
    · intro node b h hne
      have hnp : node ≠ p := by
        rintro rfl
        exact h.notMem hp
      exact (h.setNext hnp _).snoc (hne hun)
    · rintro d ⟨⟩
      -- The new last node stands one behind the node it was linked to.
      obtain ⟨j,hj⟩ := List.mem_iff_getElem?.mp hp
      have hlen := hq.chained.length_of_next_none hj hnone
      refine ⟨j,getElem?_of_isPrefix (List.prefix_append _ _) hj,?_⟩
      rw [← hlen]
      simp [goto]
    · rintro d ⟨⟩ hd
      cases hd
  · rw [hadv]
    refine ⟨chain,hq.casTail hold hnew,List.prefix_refl _,by rw [Queue.casTail_eq],
      fun _ _ h _ => h.casTail old new,?_,?_⟩
    · rintro d ⟨⟩
      obtain rfl | rfl := hst
      · trivial
      · trivial
    · rintro d ⟨⟩ hd
      have hcun : c.step.unlinked := hun.symm.trans hd
      have hnode := (hown hcun).casTail old new
      exact ⟨hcun,rfl,hnode.allocated,hnode.notMem,fun _ => hnode.cleared hclear⟩
  · rw [hadv]
    exact ⟨chain,⟨hq.chained,hq.allocated,hq.head_at,hq.tail_at⟩,List.prefix_refl _,rfl,
      fun _ _ h _ => ⟨h.allocated,h.notMem,h.cleared⟩,nofun,nofun⟩

/-! ## All threads together -/

namespace State

/-- The chain with every thread in its place. -/
structure Shape (s : State n) (chain : List Addr) : Prop where
  spine : s.queue.Spine chain (s.consumer.elim 0 Dequeue.offset)
  placed : ∀ i c, s.producers i = some c → c.Placed chain
  owned : ∀ i c, s.producers i = some c → c.step.unlinked →
    s.queue.Private chain c.node c.step.cleared
  distinct : ∀ i j c d, s.producers i = some c → s.producers j = some d →
    c.step.unlinked → d.step.unlinked → c.node = d.node → i = j
  consumer : ∀ d, s.consumer = some d → d.Placed s.queue chain

/-- When `queue_dequeue` stores `head`, `tail` is not at the old head; when it frees the
old head, no `queue_enqueue` call holds it as `prev_tail`. -/
def Clear (s : State n) (e : Event n) : Prop :=
  e = .consumer →
    (∀ head next message, s.consumer = some (.storeHead head next message) →
      s.queue.tail ≠ head) ∧
    (∀ head message, s.consumer = some (.freeHead head message) →
      ∀ i, (s.producers i).bind (fun c => c.step.prevTail) ≠ some head)

theorem shape_create (n : ℕ) : (create n).Shape [0] :=
  ⟨Queue.spine_create,nofun,nofun,nofun,nofun⟩

variable {s : State n}

theorem Shape.startEnqueue (h : s.Shape chain) (i : Fin n) (msg : WsMessage) {node : Addr}
    (hnode : node ∉ s.queue.allocated) : (s.startEnqueue i msg node).Shape chain where
  spine := h.spine.malloc node msg
  placed := by
    intro j c hj
    obtain ⟨-,hc⟩ | ⟨-,hj⟩ := update_eq_some hj
    · cases hc
      trivial
    · exact h.placed j c hj
  owned := by
    intro j c hj hun
    obtain ⟨-,hc⟩ | ⟨-,hj⟩ := update_eq_some hj
    · cases hc
      exact h.spine.private_malloc hnode msg
    · exact (h.owned j c hj hun).malloc node msg
  distinct := by
    have hfresh : ∀ j c, s.producers j = some c → c.step.unlinked → c.node ≠ node := by
      rintro j c hj hun rfl
      exact hnode (h.owned j c hj hun).allocated
    intro j l c d hj hl hc hd heq
    obtain ⟨hji,hj'⟩ | ⟨-,hj'⟩ := update_eq_some hj
    · obtain ⟨hli,-⟩ | ⟨-,hl'⟩ := update_eq_some hl
      · exact hji.trans hli.symm
      · cases hj'
        exact absurd heq.symm (hfresh l d hl' hd)
    · obtain ⟨-,hl'⟩ | ⟨-,hl'⟩ := update_eq_some hl
      · cases hl'
        exact absurd heq (hfresh j c hj' hc)
      · exact h.distinct j l c d hj' hl' hc hd heq
  consumer := fun d hd => (h.consumer d hd).mono (List.prefix_refl _) rfl

theorem Shape.produce (h : s.Shape chain) {i : Fin n} {c : Enqueue}
    (hc : s.producers i = some c) (spurious : Bool) :
    ∃ chain', (s.produce i (c.advance s.queue spurious)).Shape chain' := by
  obtain ⟨chain',hg⟩ := Enqueue.guarantee h.spine (h.placed i c hc) (h.owned i c hc) spurious
  refine ⟨chain',hg.spine,?_,?_,?_,?_⟩
  · intro j d hj
    obtain ⟨-,hd⟩ | ⟨-,hj⟩ := update_eq_some hj
    · exact hg.placed d hd
    · exact (h.placed j d hj).mono hg.grows
  · intro j d hj hun
    obtain ⟨-,hd⟩ | ⟨hji,hj⟩ := update_eq_some hj
    · exact (hg.owned d hd hun).2.2
    · apply hg.others _ _ (h.owned j d hj hun)
      intro hcun hnode
      exact hji (h.distinct j i d c hj hc hun hcun hnode)
  · intro j l d e hj hl hd he heq
    obtain ⟨hji,hj'⟩ | ⟨-,hj'⟩ := update_eq_some hj
    · obtain ⟨hli,-⟩ | ⟨-,hl'⟩ := update_eq_some hl
      · exact hji.trans hli.symm
      · obtain ⟨hcun,hnode,-⟩ := hg.owned d hj' hd
        exact hji.trans (h.distinct i l c e hc hl' hcun he (hnode.symm.trans heq))
    · obtain ⟨hli,hl'⟩ | ⟨-,hl'⟩ := update_eq_some hl
      · obtain ⟨hcun,hnode,-⟩ := hg.owned e hl' he
        exact (h.distinct j i d c hj' hc hd hcun (heq.trans hnode)).trans hli.symm
      · exact h.distinct j l d e hj' hl' hd he heq
  · exact fun d hd => (h.consumer d hd).mono hg.grows hg.head

/-- A step of the consumer that leaves the memory of the nodes alone. -/
theorem Shape.withConsumer (h : s.Shape chain) {r : Queue} {d : Option Dequeue}
    (results : List (Option WsMessage)) (hheap : r.heap = s.queue.heap)
    (halloc : r.allocated = s.queue.allocated) (hspine : r.Spine chain (d.elim 0 Dequeue.offset))
    (hplaced : ∀ e, d = some e → e.Placed r chain) :
    ({s with queue := r, consumer := d, results := results} : State n).Shape chain where
  spine := hspine
  placed := h.placed
  owned := by
    intro i c hi hun
    obtain ⟨ha,hn,hc⟩ := h.owned i c hi hun
    refine ⟨halloc ▸ ha,hn,fun hb => ?_⟩
    rw [← hc hb]
    show (r.heap c.node).next = (s.queue.heap c.node).next
    rw [hheap]
  distinct := h.distinct
  consumer := hplaced

theorem Shape.consume (h : s.Shape chain) {d : Dequeue} (hd : s.consumer = some d)
    (hclear : s.Clear .consumer) : ∃ chain', (s.consume (d.advance s.queue)).Shape chain' := by
  have hspine := h.spine
  have hplaced := h.consumer d hd
  obtain ⟨hstore,hfree⟩ := hclear rfl
  rw [hd] at hspine
  cases d with
  | loadHead =>
    refine ⟨chain,h.withConsumer s.results rfl rfl hspine ?_⟩
    rintro e ⟨⟩
    rfl
  | loadNext head =>
    cases hplaced
    cases hnext : (s.queue.heap s.queue.head).next with
    | none =>
      simp only [Dequeue.advance,hnext,State.consume]
      exact ⟨chain,h.withConsumer (s.results ++ [none]) rfl rfl hspine nofun⟩
    | some next =>
      simp only [Dequeue.advance,hnext,State.consume]
      refine ⟨chain,h.withConsumer s.results rfl rfl hspine ?_⟩
      rintro e ⟨⟩
      exact ⟨rfl,(hspine.chained.next_eq hspine.head_at).symm.trans hnext⟩
  | copyMessage head next =>
    refine ⟨chain,h.withConsumer s.results rfl rfl hspine ?_⟩
    rintro e ⟨⟩
    exact hplaced
  | storeHead head next message =>
    obtain ⟨rfl,hnext⟩ := hplaced
    have htail := hstore _ next message hd
    refine ⟨chain,h.withConsumer s.results rfl rfl (hspine.storeHead hnext htail) ?_⟩
    rintro e ⟨⟩
    exact hspine.head_at
  | subCount head message =>
    refine ⟨chain,h.withConsumer s.results rfl rfl
      ⟨hspine.chained,hspine.allocated,hspine.head_at,hspine.tail_at⟩ ?_⟩
    rintro e ⟨⟩
    exact hplaced
  | freeHead head message =>
    cases chain with
    | nil => cases hplaced
    | cons first chain =>
      have heq : first = head := Option.some.inj hplaced
      subst heq
      have hprev := hfree first message hd
      refine ⟨chain,hspine.free,?_,?_,h.distinct,nofun⟩
      · intro i c hi
        apply (h.placed i c hi).free
        have hne := hprev i
        rw [show s.producers i = some c from hi,Option.bind_some] at hne
        exact hne
      · intro i c hi hun
        exact (h.owned i c hi hun).free

theorem Shape.step {t : State n} {e : Event n} (h : s.Shape chain)
    (hstep : State.step s e = some t) (hclear : s.Clear e) : ∃ chain', t.Shape chain' := by
  cases e with
  | startEnqueue i msg node =>
    simp only [State.step] at hstep
    cases hi : s.producers i with
    | some c => simp [hi] at hstep
    | none =>
      by_cases hnode : node ∈ s.queue.allocated
      · simp [hi,hnode] at hstep
      · have ht : t = s.startEnqueue i msg node := by simpa [hi,hnode,eq_comm] using hstep
        subst ht
        exact ⟨chain,h.startEnqueue i msg hnode⟩
  | failEnqueue i msg =>
    simp only [State.step] at hstep
    cases hi : s.producers i with
    | some c => simp [hi] at hstep
    | none =>
      simp only [hi,Option.some.injEq] at hstep
      subst hstep
      exact ⟨chain,h⟩
  | producer i spurious =>
    simp only [State.step] at hstep
    cases hi : s.producers i with
    | none => simp [hi] at hstep
    | some c =>
      simp only [hi,Option.some.injEq] at hstep
      subst hstep
      exact h.produce hi spurious
  | startDequeue =>
    simp only [State.step] at hstep
    cases hd : s.consumer with
    | some d => simp [hd] at hstep
    | none =>
      simp only [hd,Option.some.injEq] at hstep
      subst hstep
      have hspine := h.spine
      rw [hd] at hspine
      refine ⟨chain,h.withConsumer s.results rfl rfl hspine ?_⟩
      rintro e ⟨⟩
      trivial
  | consumer =>
    simp only [State.step] at hstep
    cases hd : s.consumer with
    | none => simp [hd] at hstep
    | some d =>
      simp only [hd,Option.some.injEq] at hstep
      subst hstep
      exact h.consume hd hclear

/-- `tail` is reachable from `head`, the node about to be freed is not `tail`, and a
compare-exchange that is about to link a node links it to a reachable one. -/
structure TailSafe (s : State n) : Prop where
  reachable : s.queue.Reaches s.queue.head s.queue.tail
  not_freed : ∀ head message, s.consumer = some (.freeHead head message) →
    head ≠ s.queue.tail
  not_lost : ∀ i c p, s.producers i = some c → c.step = .linkNext p →
    (s.queue.heap p).next = none → s.queue.Reaches s.queue.head p

theorem Shape.tailSafe (h : s.Shape chain) : s.TailSafe where
  reachable := h.spine.reaches_tail
  not_freed := by
    rintro head message hd rfl
    have hspine := h.spine
    have hplaced := h.consumer _ hd
    rw [hd] at hspine
    obtain ⟨t,hle,ht⟩ := hspine.tail_at
    have ht0 : t = 0 := hspine.chained.index_unique ht hplaced
    simp only [Option.elim,Dequeue.offset] at hle
    omega
  not_lost := by
    intro i c p hi hstep hnone
    have hplaced := h.placed i c hi
    simp only [Enqueue.Placed,hstep] at hplaced
    exact h.spine.reaches_last hplaced hnone

/-- In every run in which each step of the consumer is clear, `tail` is safe. -/
theorem tailSafe_run {events : List (Event n)} {s : State n} (h : run events = some s)
    (hclear : Runs.Along step Clear (create n) events) : s.TailSafe := by
  have hinv := Runs.exec_invariant_of_along (I := fun s : State n => ∃ chain, s.Shape chain)
    (fun _ _ _ hstep hp hs => by
      obtain ⟨chain,hshape⟩ := hs
      exact hshape.step hstep hp)
    h hclear ⟨[0],shape_create n⟩
  obtain ⟨chain,hshape⟩ := hinv
  exact hshape.tailSafe

/-- A store of `head` that passes `tail` loses it: nothing leads back. -/
theorem Shape.lost_of_tail_at_head (h : s.Shape chain) {head next : Addr}
    {message : Option WsMessage} (hd : s.consumer = some (.storeHead head next message))
    (htail : s.queue.tail = head) {t : State n} (hstep : State.step s .consumer = some t) :
    ¬ t.queue.Reaches t.queue.head t.queue.tail := by
  have hspine := h.spine
  obtain ⟨rfl,hnext⟩ := h.consumer _ hd
  rw [hd] at hspine
  have ht : t = s.consume ({s.queue with head := next},.inl (.subCount s.queue.head message)) := by
    simpa [State.step,hd,Dequeue.advance,eq_comm] using hstep
  subst ht
  intro hreach
  have hreach' : Relation.ReflTransGen (fun x y => s.queue.next x = some y) next s.queue.tail :=
    hreach
  obtain ⟨j,hj,hat⟩ := hspine.chained.index_of_reaches hnext hreach'
  have hzero : j = 0 := hspine.chained.index_unique hat (htail ▸ hspine.head_at)
  omega

instance (s : State n) (e : Event n) : Decidable (s.Clear e) :=
  match hd : s.consumer with
  | some (.storeHead head next message) =>
    decidable_of_iff (e = .consumer → s.queue.tail ≠ head) (by simp [Clear,hd])
  | some (.freeHead head message) =>
    decidable_of_iff (e = .consumer →
      ∀ i, (s.producers i).bind (fun c => c.step.prevTail) ≠ some head) (by simp [Clear,hd])
  | some .loadHead => isTrue (by simp [Clear,hd])
  | some (.loadNext _) => isTrue (by simp [Clear,hd])
  | some (.copyMessage _ _) => isTrue (by simp [Clear,hd])
  | some (.subCount _ _) => isTrue (by simp [Clear,hd])
  | none => isTrue (by simp [Clear,hd])

/-- Producer 1 reuses the address of the freed dummy node. -/
def reusedNode : List (Event 2) :=
  Event.startEnqueue 0 ⟨[65],0⟩ 1 :: List.replicate 5 (Event.producer 0 false) ++
    (Event.startDequeue :: List.replicate 6 Event.consumer) ++
    (Event.startEnqueue 1 ⟨[66],1⟩ 0 :: List.replicate 5 (Event.producer 1 false))

theorem tailSafe_run_reusedNode : ∃ s, run reusedNode = some s ∧
    Runs.Along step Clear (create 2) reusedNode ∧ s.TailSafe := by
  have hsome : (run reusedNode).isSome := by decide +kernel
  obtain ⟨s,hs⟩ := Option.isSome_iff_exists.mp hsome
  have hclear : Runs.Along step Clear (create 2) reusedNode := by decide +kernel
  exact ⟨s,hs,hclear,tailSafe_run hs hclear⟩

/-- The consumer takes a node whose producer has not swung `tail` yet, and is about to
free the node that `tail` points to. -/
def stalledSwing : List (Event 1) :=
  Event.startEnqueue 0 ⟨[65],0⟩ 1 :: List.replicate 3 (Event.producer 0 false) ++
    (Event.startDequeue :: List.replicate 5 Event.consumer)

theorem tail_lost_stalledSwing : ∃ s, run stalledSwing = some s ∧
    ¬ s.queue.Reaches s.queue.head s.queue.tail ∧
    ∃ message, s.consumer = some (.freeHead s.queue.tail message) := by
  have hrun : (run stalledSwing).map (fun s => (s.queue.head,s.queue.tail,
      (s.queue.heap 1).next,s.consumer)) =
      some (1,0,none,some (.freeHead 0 (some ⟨[65],0⟩))) := by decide +kernel
  obtain ⟨s,hs,hval⟩ := Option.map_eq_some_iff.mp hrun
  simp only [Prod.mk.injEq] at hval
  obtain ⟨hhead,htail,hnext,hconsumer⟩ := hval
  refine ⟨s,hs,?_,some ⟨[65],0⟩,by rw [htail,hconsumer]⟩
  rw [hhead,htail]
  intro hreach
  obtain heq | ⟨b,hb,-⟩ := hreach.cases_head
  · cases heq
  · rw [hnext] at hb
    cases hb

end State
end LockFreeQueueC
end UProtocols
