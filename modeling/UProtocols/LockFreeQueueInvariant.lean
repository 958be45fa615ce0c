import Mathlib.Data.List.ReduceOption
import UProtocols.LinkedChain
import UProtocols.LockFreeQueue

/-!
# The invariant of the lock-free queue

The nodes that were ever linked form one chain; `head` stands at the position given by
the number of dequeues and `tail` at that position or behind it. What a thread knows of
the chain stays true while others move (`Extends`), so each operation is checked for
its own thread only.
-/

namespace UProtocols
namespace LockFreeQueue
namespace Queue

/-- `tail` stands at position `b` of the chain or behind it. -/
def TailFrom (q : Queue) (b : ℕ) : Prop := ∃ t, b ≤ t ∧ q.chain[t]? = some q.tail

structure Spine (q : Queue) : Prop where
  chained : LinkedChain (fun a => (q.heap a).next) q.chain
  allocated : ∀ a ∈ q.chain, a < q.fresh
  messages : ∀ l ∈ q.linked, (q.heap l.node).message = some l.message
  head_at : q.chain[q.dequeued]? = some q.head
  tail_at : q.TailFrom q.dequeued

/-- What every operation guarantees to the threads that do not take it. -/
structure Extends (q r : Queue) : Prop where
  linked : q.linked <+: r.linked
  fresh : q.fresh ≤ r.fresh
  tail : ∀ b, q.TailFrom b → r.TailFrom b

/-- A node that its call still owns: nobody else can reach it. -/
structure Private (q : Queue) (node : Addr) (message : WebSocketMessage) : Prop where
  allocated : node < q.fresh
  notMem : node ∉ q.chain
  content : q.heap node = QueueNode.new message

variable {q r : Queue}

theorem Extends.refl (q : Queue) : Extends q q :=
  ⟨List.prefix_refl _,Nat.le_refl _,fun _ h => h⟩

theorem chain_isPrefix (h : q.linked <+: r.linked) : q.chain <+: r.chain := by
  obtain ⟨ls,hls⟩ := h
  exact ⟨ls.map Link.node,by simp [chain,← hls]⟩

theorem Extends.at {k : ℕ} {a : Addr} (h : Extends q r) (hk : q.chain[k]? = some a) :
    r.chain[k]? = some a :=
  getElem?_of_isPrefix (chain_isPrefix h.linked) hk

theorem Extends.mem {a : Addr} (h : Extends q r) (ha : a ∈ q.chain) : a ∈ r.chain :=
  (chain_isPrefix h.linked).subset ha

theorem chain_succ (q : Queue) (k : ℕ) : q.chain[k + 1]? = (q.linked[k]?).map Link.node := by
  simp [chain]

theorem TailFrom.mono {b c : ℕ} (h : q.TailFrom c) (hbc : b ≤ c) : q.TailFrom b := by
  obtain ⟨t,ht,hat⟩ := h
  exact ⟨t,Nat.le_trans hbc ht,hat⟩

theorem spine_new : Spine new where
  chained := ⟨List.nodup_singleton 0,by
    intro k a hk
    cases k with
    | zero => rfl
    | succ k => simp [chain,new] at hk⟩
  allocated := by simp [chain,new]
  messages := by simp [new]
  head_at := rfl
  tail_at := ⟨0,Nat.le_refl 0,rfl⟩

/-! ## The operations -/

theorem alloc_extends (q : Queue) (m : WebSocketMessage) : Extends q (q.alloc m) :=
  ⟨List.prefix_refl _,Nat.le_succ _,fun _ h => h⟩

theorem heap_alloc {a : Addr} (ha : a < q.fresh) (m : WebSocketMessage) :
    (q.alloc m).heap a = q.heap a :=
  Function.update_of_ne (Nat.ne_of_lt ha) _ _

theorem Spine.alloc (h : q.Spine) (m : WebSocketMessage) : (q.alloc m).Spine where
  chained := h.chained.congr fun a ha => by rw [heap_alloc (h.allocated a ha)]
  allocated := fun a ha => Nat.lt_succ_of_lt (h.allocated a ha)
  messages := by
    intro l hl
    have hmem : l.node ∈ q.chain := List.mem_cons_of_mem _ (List.mem_map_of_mem hl)
    rw [heap_alloc (h.allocated _ hmem)]
    exact h.messages l hl
  head_at := h.head_at
  tail_at := h.tail_at

theorem Private.alloc {node : Addr} {message : WebSocketMessage} (h : Private q node message)
    (m : WebSocketMessage) : Private (q.alloc m) node message where
  allocated := Nat.lt_succ_of_lt h.allocated
  notMem := h.notMem
  content := (heap_alloc h.allocated m).trans h.content

/-- The new node is private. -/
theorem Spine.private_alloc (h : q.Spine) (m : WebSocketMessage) :
    Private (q.alloc m) q.fresh m where
  allocated := Nat.lt_succ_self _
  notMem := fun hmem => Nat.lt_irrefl _ (h.allocated _ hmem)
  content := Function.update_self _ _ _

theorem chain_link (q : Queue) (tail : Addr) (l : Link) :
    (q.link tail l).chain = q.chain ++ [l.node] := by
  simp [chain,link]

theorem link_extends (q : Queue) (tail : Addr) (l : Link) : Extends q (q.link tail l) where
  linked := List.prefix_append _ _
  fresh := Nat.le_refl _
  tail := by
    rintro b ⟨t,hbt,hat⟩
    refine ⟨t,hbt,?_⟩
    rw [chain_link]
    exact getElem?_of_isPrefix (List.prefix_append _ _) hat

theorem message_link (q : Queue) (tail : Addr) (l : Link) (a : Addr) :
    ((q.link tail l).heap a).message = (q.heap a).message := by
  by_cases ha : a = tail
  · subst ha
    simp [link]
  · simp [link,Function.update_of_ne ha]

theorem next_link (q : Queue) (tail : Addr) (l : Link) :
    (fun a => ((q.link tail l).heap a).next) =
      Function.update (fun a => (q.heap a).next) tail (some l.node) := by
  funext a
  by_cases ha : a = tail
  · subst ha
    simp [link]
  · simp [link,Function.update_of_ne ha]

/-- Linking a private node behind the last one. -/
theorem Spine.link (h : q.Spine) {tail : Addr} {l : Link} (htail : tail ∈ q.chain)
    (hnone : (q.heap tail).next = none) (hnode : Private q l.node l.message) :
    (q.link tail l).Spine where
  chained := by
    obtain ⟨k,hk⟩ := List.mem_iff_getElem?.mp htail
    rw [next_link,chain_link]
    exact h.chained.snoc hk hnone hnode.notMem (by rw [hnode.content]; rfl)
  allocated := by
    intro a ha
    rw [chain_link,List.mem_append,List.mem_singleton] at ha
    obtain ha | rfl := ha
    · exact h.allocated a ha
    · exact hnode.allocated
  messages := by
    intro l' hl'
    rw [message_link]
    obtain hl' | hl' := List.mem_append.mp hl'
    · exact h.messages l' hl'
    · rw [List.mem_singleton.mp hl',hnode.content]
      rfl
  head_at := (link_extends q tail l).at h.head_at
  tail_at := (link_extends q tail l).tail _ h.tail_at

theorem Private.link {node tail : Addr} {message : WebSocketMessage} {l : Link}
    (h : Private q node message) (htail : tail ∈ q.chain) (hne : node ≠ l.node) :
    Private (q.link tail l) node message where
  allocated := h.allocated
  notMem := by
    rw [chain_link,List.mem_append,List.mem_singleton]
    exact not_or.mpr ⟨h.notMem,hne⟩
  content := by
    have hnt : node ≠ tail := fun heq => h.notMem (heq ▸ htail)
    exact (Function.update_of_ne hnt _ _).trans h.content

/-- `tail` only ever moves one position on. -/
theorem Spine.casTail_extends (h : q.Spine) {a : ℕ} {old next : Addr}
    (hold : q.chain[a]? = some old) (hnext : q.chain[a + 1]? = some next) :
    Extends q (q.casTail old next) := by
  rw [casTail]
  split_ifs with heq
  · refine ⟨List.prefix_refl _,Nat.le_refl _,?_⟩
    rintro b ⟨t,hbt,hat⟩
    have hta : t = a := h.chained.index_unique hat (heq ▸ hold)
    exact ⟨a + 1,by omega,hnext⟩
  · exact Extends.refl q

theorem Spine.casTail (h : q.Spine) {a : ℕ} {old next : Addr}
    (hold : q.chain[a]? = some old) (hnext : q.chain[a + 1]? = some next) :
    (q.casTail old next).Spine := by
  have hext := h.casTail_extends hold hnext
  rw [Queue.casTail] at hext ⊢
  split_ifs with heq
  · rw [if_pos heq] at hext
    exact ⟨h.chained,h.allocated,h.messages,h.head_at,hext.tail _ h.tail_at⟩
  · exact h

theorem Spine.swingHead (h : q.Spine) {next : Addr} (hnext : q.chain[q.dequeued + 1]? = some next)
    (htail : q.TailFrom (q.dequeued + 1)) : (q.swingHead next).Spine where
  chained := h.chained
  allocated := h.allocated
  messages := h.messages
  head_at := hnext
  tail_at := htail

/-- A compare-exchange of `tail` changes nothing else. -/
theorem casTail_eq (q : Queue) (old next : Addr) :
    q.casTail old next = {q with tail := (q.casTail old next).tail} := by
  rw [casTail]
  split_ifs <;> rfl

@[simp] theorem casTail_linked (q : Queue) (old next : Addr) :
    (q.casTail old next).linked = q.linked := by
  rw [casTail_eq]

@[simp] theorem casTail_dequeued (q : Queue) (old next : Addr) :
    (q.casTail old next).dequeued = q.dequeued := by
  rw [casTail_eq]

@[simp] theorem casTail_head (q : Queue) (old next : Addr) :
    (q.casTail old next).head = q.head := by
  rw [casTail_eq]

theorem Private.casTail {node : Addr} {message : WebSocketMessage} (h : Private q node message)
    (old next : Addr) : Private (q.casTail old next) node message := by
  rw [casTail_eq]
  exact ⟨h.allocated,h.notMem,h.content⟩

end Queue

/-! ## What a thread knows -/

/-- Where the locals of an `enqueue` call stand in the chain. -/
def Enqueue.Placed (q : Queue) (c : Enqueue) : Prop :=
  match c.step with
  | .loadTail => True
  | .loadNext tail => tail ∈ q.chain
  | .recheckTail tail next =>
    ∃ a, q.chain[a]? = some tail ∧ ∀ n, next = some n → q.chain[a + 1]? = some n
  | .linkNext tail => tail ∈ q.chain
  | .swingTail tail => ∃ a, q.chain[a]? = some tail ∧ q.chain[a + 1]? = some c.node
  | .helpTail tail next => ∃ a, q.chain[a]? = some tail ∧ q.chain[a + 1]? = some next
  | .addCount => True

/-- The locals of the `dequeue` call: `head` is current, the tail it loaded is at `head`
or behind it, and `next` is the node behind `head`. -/
def Dequeue.Placed (q : Queue) : Dequeue → Prop
  | .loadHead => True
  | .loadTail head => head = q.head
  | .loadNext head tail =>
    head = q.head ∧ ∃ b, q.chain[b]? = some tail ∧ q.dequeued ≤ b ∧ q.TailFrom b
  | .recheckHead head tail next =>
    head = q.head ∧ (∀ n, next = some n → q.chain[q.dequeued + 1]? = some n) ∧
      ∃ b, q.chain[b]? = some tail ∧ q.dequeued ≤ b ∧ q.TailFrom b ∧
        (next = none → b = q.dequeued)
  | .helpTail tail next => ∃ b, q.chain[b]? = some tail ∧ q.chain[b + 1]? = some next
  | .readMessage head next =>
    head = q.head ∧ q.TailFrom (q.dequeued + 1) ∧
      ∃ l, q.linked[q.dequeued]? = some l ∧ next = some l.node
  | .swingHead head next message =>
    head = q.head ∧ q.TailFrom (q.dequeued + 1) ∧
      ∃ l, q.linked[q.dequeued]? = some l ∧ next = l.node ∧ message = some l.message
  | .subCount head message =>
    message.isSome ∧ ∃ k, q.dequeued = k + 1 ∧ q.chain[k]? = some head
  | .dropHead head message =>
    message.isSome ∧ ∃ k, q.dequeued = k + 1 ∧ q.chain[k]? = some head

theorem Enqueue.Placed.extend {q r : Queue} {c : Enqueue} (h : c.Placed q)
    (hext : q.Extends r) : c.Placed r := by
  rw [Enqueue.Placed] at h ⊢
  cases hstep : c.step with
  | loadTail => trivial
  | loadNext tail =>
    simp only [hstep] at h
    exact hext.mem h
  | recheckTail tail next =>
    simp only [hstep] at h
    obtain ⟨a,ha,hn⟩ := h
    exact ⟨a,hext.at ha,fun n hnext => hext.at (hn n hnext)⟩
  | linkNext tail =>
    simp only [hstep] at h
    exact hext.mem h
  | swingTail tail =>
    simp only [hstep] at h
    obtain ⟨a,ha,hn⟩ := h
    exact ⟨a,hext.at ha,hext.at hn⟩
  | helpTail tail next =>
    simp only [hstep] at h
    obtain ⟨a,ha,hn⟩ := h
    exact ⟨a,hext.at ha,hext.at hn⟩
  | addCount => trivial

/-- The consumer's view survives what producers do: they leave `head` alone. -/
theorem Dequeue.Placed.extend {q r : Queue} {d : Dequeue} (h : d.Placed q) (hext : q.Extends r)
    (hhead : r.head = q.head) (hdeq : r.dequeued = q.dequeued) : d.Placed r := by
  have hlinked {k : ℕ} {l : Link} (hk : q.linked[k]? = some l) : r.linked[k]? = some l :=
    getElem?_of_isPrefix hext.linked hk
  cases d with
  | loadHead => trivial
  | loadTail head => exact h.trans hhead.symm
  | loadNext head tail =>
    obtain ⟨hh,b,hb,hle,hfrom⟩ := h
    exact ⟨hh.trans hhead.symm,b,hext.at hb,hdeq ▸ hle,hext.tail b hfrom⟩
  | recheckHead head tail next =>
    obtain ⟨hh,hn,b,hb,hle,hfrom,hnone⟩ := h
    refine ⟨hh.trans hhead.symm,?_,b,hext.at hb,hdeq ▸ hle,hext.tail b hfrom,hdeq ▸ hnone⟩
    intro n hnext
    rw [hdeq]
    exact hext.at (hn n hnext)
  | helpTail tail next =>
    obtain ⟨b,hb,hn⟩ := h
    exact ⟨b,hext.at hb,hext.at hn⟩
  | readMessage head next =>
    obtain ⟨hh,hfrom,l,hl,hn⟩ := h
    refine ⟨hh.trans hhead.symm,?_,l,?_,hn⟩
    · rw [hdeq]
      exact hext.tail _ hfrom
    · rw [hdeq]
      exact hlinked hl
  | swingHead head next message =>
    obtain ⟨hh,hfrom,l,hl,hn⟩ := h
    refine ⟨hh.trans hhead.symm,?_,l,?_,hn⟩
    · rw [hdeq]
      exact hext.tail _ hfrom
    · rw [hdeq]
      exact hlinked hl
  | subCount head message =>
    obtain ⟨hm,k,hk,hat⟩ := h
    exact ⟨hm,k,hdeq.trans hk,hext.at hat⟩
  | dropHead head message =>
    obtain ⟨hm,k,hk,hat⟩ := h
    exact ⟨hm,k,hdeq.trans hk,hext.at hat⟩

/-- Everything that an operation of `enqueue` can do: move on without touching the
queue, link its node, move `tail` on, or count and return. -/
theorem Enqueue.advance_cases {q : Queue} {c : Enqueue} (hq : q.Spine) (hc : c.Placed q) (i : ℕ) :
    (∃ st, c.advance q i = (q,some (c.goto st)) ∧ c.step.unlinked ∧ st.unlinked ∧
      (c.goto st).Placed q ∧ ∀ tail, st = .loadNext tail ∨ st = .linkNext tail → tail = q.tail) ∨
    (∃ tail, c.step = .linkNext tail ∧ tail ∈ q.chain ∧ (q.heap tail).next = none ∧
      c.advance q i = (q.link tail ⟨i,c.node,c.message⟩,some (c.goto (.swingTail tail)))) ∨
    (∃ a old next st, q.chain[a]? = some old ∧ q.chain[a + 1]? = some next ∧
      c.advance q i = (q.casTail old next,some (c.goto st)) ∧
      st.unlinked = c.step.unlinked ∧ (st = .loadTail ∨ st = .addCount)) ∨
    (c.step = .addCount ∧ c.advance q i = ({q with count := q.count + 1},none)) := by
  rw [Enqueue.Placed] at hc
  cases hstep : c.step with
  | loadTail =>
    left
    obtain ⟨t,-,ht⟩ := hq.tail_at
    refine ⟨.loadNext q.tail,by simp only [advance,hstep],rfl,rfl,List.mem_of_getElem? ht,?_⟩
    rintro tail (h | h) <;> cases h
    rfl
  | loadNext tail =>
    left
    simp only [hstep] at hc
    obtain ⟨a,ha⟩ := List.mem_iff_getElem?.mp hc
    refine ⟨.recheckTail tail (q.heap tail).next,by simp only [advance,hstep],rfl,rfl,?_,?_⟩
    · exact ⟨a,ha,fun n hn => (hq.chained.next_eq ha).symm.trans hn⟩
    · rintro tail (h | h) <;> cases h
  | recheckTail tail next =>
    left
    simp only [hstep] at hc
    obtain ⟨a,ha,hn⟩ := hc
    by_cases heq : tail = q.tail
    · cases next with
      | none =>
        refine ⟨.linkNext tail,by simp only [advance,hstep,if_pos heq],rfl,rfl,
          List.mem_of_getElem? ha,?_⟩
        rintro tail' (h | h) <;> cases h
        exact heq
      | some next =>
        refine ⟨.helpTail tail next,by simp only [advance,hstep,if_pos heq],rfl,rfl,
          ⟨a,ha,hn next rfl⟩,?_⟩
        rintro tail' (h | h) <;> cases h
    · refine ⟨.loadTail,by simp only [advance,hstep,if_neg heq],rfl,rfl,trivial,?_⟩
      rintro tail' (h | h) <;> cases h
  | linkNext tail =>
    simp only [hstep] at hc
    by_cases hnone : (q.heap tail).next = none
    · exact .inr (.inl ⟨tail,rfl,hc,hnone,by simp only [advance,hstep,if_pos hnone]⟩)
    · left
      refine ⟨.loadTail,by simp only [advance,hstep,if_neg hnone],rfl,rfl,trivial,?_⟩
      rintro tail' (h | h) <;> cases h
  | swingTail tail =>
    simp only [hstep] at hc
    obtain ⟨a,ha,hn⟩ := hc
    exact .inr (.inr (.inl
      ⟨a,tail,c.node,.addCount,ha,hn,by simp only [advance,hstep],rfl,.inr rfl⟩))
  | helpTail tail next =>
    simp only [hstep] at hc
    obtain ⟨a,ha,hn⟩ := hc
    exact .inr (.inr (.inl
      ⟨a,tail,next,.loadTail,ha,hn,by simp only [advance,hstep],rfl,.inl rfl⟩))
  | addCount => exact .inr (.inr (.inr ⟨rfl,by simp only [advance,hstep]⟩))

/-- The message that a `dequeue` call has taken off the queue and not yet returned. -/
def Dequeue.inHand : Dequeue → Option WebSocketMessage
  | .subCount _ message => message
  | .dropHead _ message => message
  | _ => none

/-- Everything that an operation of `dequeue` can do. -/
theorem Dequeue.advance_cases {q r : Queue} {d : Dequeue} {o : Outcome} (hq : q.Spine)
    (hd : d.Placed q) (h : d.advance q = some (r,o)) :
    (∃ e, r = q ∧ o = .goesOn e ∧ e.Placed q ∧ d.inHand = none ∧ e.inHand = none ∧
      ∀ head tail, e = .recheckHead head tail none → q.linked.length = q.dequeued) ∨
    (∃ head, d = .recheckHead head head none ∧ r = q ∧ o = .returns none) ∨
    (∃ b old next, q.chain[b]? = some old ∧ q.chain[b + 1]? = some next ∧
      d = .helpTail old next ∧ r = q.casTail old next ∧ o = .goesOn .loadHead) ∨
    (∃ l, q.linked[q.dequeued]? = some l ∧ q.TailFrom (q.dequeued + 1) ∧
      d = .swingHead q.head l.node (some l.message) ∧ r = q.swingHead l.node ∧
      o = .goesOn (.subCount q.head (some l.message))) ∨
    (∃ head message, d = .subCount head message ∧ r = {q with count := q.count - 1} ∧
      o = .goesOn (.dropHead head message)) ∨
    (∃ head message, d = .dropHead head message ∧ r = q ∧ o = .drops head message) := by
  cases d with
  | loadHead =>
    cases h
    left
    exact ⟨_,rfl,rfl,rfl,rfl,rfl,nofun⟩
  | loadTail head =>
    cases h
    left
    obtain ⟨t,hle,ht⟩ := hq.tail_at
    exact ⟨_,rfl,rfl,⟨hd,t,ht,hle,t,Nat.le_refl t,ht⟩,rfl,rfl,nofun⟩
  | loadNext head tail =>
    cases h
    left
    obtain ⟨rfl,b,hb,hle,hfrom⟩ := hd
    have hnext := hq.chained.next_eq hq.head_at
    refine ⟨_,rfl,rfl,⟨rfl,fun n hn => hnext.symm.trans hn,b,hb,hle,hfrom,?_⟩,rfl,rfl,?_⟩
    · -- With nothing behind `head` the loaded tail can only be `head` itself.
      intro hnone
      have hlen := hq.chained.length_of_next_none hq.head_at hnone
      have hlt := (List.getElem?_eq_some_iff.mp hb).1
      omega
    · intro head tail heq
      injection heq with _ _ hnone
      have hlen := hq.chained.length_of_next_none hq.head_at hnone
      simpa [Queue.chain] using hlen
  | recheckHead head tail next =>
    obtain ⟨rfl,hn,b,hb,hle,hfrom,hnone⟩ := hd
    simp only [advance,if_true] at h
    by_cases heq : q.head = tail
    · subst heq
      rw [if_pos rfl] at h
      cases next with
      | none =>
        cases h
        exact .inr (.inl ⟨_,rfl,rfl,rfl⟩)
      | some next =>
        cases h
        left
        exact ⟨_,rfl,rfl,⟨q.dequeued,hq.head_at,hn next rfl⟩,rfl,rfl,nofun⟩
    · rw [if_neg heq] at h
      cases h
      left
      -- The loaded tail is behind `head`, so there is a node behind `head`.
      have hbd : b ≠ q.dequeued := by
        rintro rfl
        exact heq (Option.some.inj (hq.head_at.symm.trans hb))
      obtain ⟨n,rfl⟩ : ∃ n, next = some n := by
        cases next with
        | none => exact absurd (hnone rfl) hbd
        | some n => exact ⟨n,rfl⟩
      have hat := hn n rfl
      rw [Queue.chain_succ,Option.map_eq_some_iff] at hat
      obtain ⟨l,hl,rfl⟩ := hat
      exact ⟨_,rfl,rfl,⟨rfl,hfrom.mono (by omega),l,hl,rfl⟩,rfl,rfl,nofun⟩
  | helpTail tail next =>
    cases h
    obtain ⟨b,hb,hn⟩ := hd
    exact .inr (.inr (.inl ⟨b,tail,next,hb,hn,rfl,rfl,rfl⟩))
  | readMessage head next =>
    obtain ⟨rfl,hfrom,l,hl,rfl⟩ := hd
    simp only [advance,Option.map_some,Option.some.injEq,Prod.mk.injEq] at h
    obtain ⟨rfl,rfl⟩ := h
    left
    have hmessage := hq.messages l (List.mem_of_getElem? hl)
    exact ⟨_,rfl,rfl,⟨rfl,hfrom,l,hl,rfl,hmessage⟩,rfl,rfl,nofun⟩
  | swingHead head next message =>
    obtain ⟨rfl,hfrom,l,hl,rfl,rfl⟩ := hd
    simp only [advance,if_true,Option.some.injEq,Prod.mk.injEq] at h
    obtain ⟨rfl,rfl⟩ := h
    exact .inr (.inr (.inr (.inl ⟨l,hl,hfrom,rfl,rfl,rfl⟩)))
  | subCount head message =>
    cases h
    exact .inr (.inr (.inr (.inr (.inl ⟨head,message,rfl,rfl,rfl⟩))))
  | dropHead head message =>
    cases h
    exact .inr (.inr (.inr (.inr (.inr ⟨head,message,rfl,rfl,rfl⟩))))

/-- The consumer never stops on a null pointer. -/
theorem Dequeue.advance_isSome {q : Queue} {d : Dequeue} (hd : d.Placed q) :
    (d.advance q).isSome := by
  cases d with
  | recheckHead head tail next =>
    simp only [advance]
    split_ifs
    · cases next <;> rfl
    · rfl
    · rfl
  | readMessage head next =>
    obtain ⟨-,-,l,-,rfl⟩ := hd
    rfl
  | swingHead head next message =>
    simp only [advance]
    split_ifs <;> rfl
  | _ => rfl

/-! ## All threads together -/

/-- What an operation of the call `c` guarantees: to the queue, to the nodes of other
calls, and to the call that goes on. -/
structure Enqueue.Guarantee (q r : Queue) (c : Enqueue) (c' : Option Enqueue) : Prop where
  spine : r.Spine
  ext : q.Extends r
  head : r.head = q.head
  dequeued : r.dequeued = q.dequeued
  others : ∀ node m, q.Private node m → (c.step.unlinked → node ≠ c.node) → r.Private node m
  placed : ∀ d, c' = some d → d.Placed r
  owned : ∀ d, c' = some d → d.step.unlinked →
    c.step.unlinked ∧ d.node = c.node ∧ r.Private d.node d.message

theorem Enqueue.guarantee {q : Queue} {c : Enqueue} (hq : q.Spine) (hc : c.Placed q)
    (hown : c.step.unlinked → q.Private c.node c.message) (i : ℕ) :
    Guarantee q (c.advance q i).1 c (c.advance q i).2 := by
  obtain ⟨st,hadv,hun,-,hplaced,-⟩ | ⟨tail,hstep,htail,hnone,hadv⟩ |
    ⟨a,old,next,st,hold,hnext,hadv,hun,hst⟩ | ⟨-,hadv⟩ := advance_cases hq hc i
  · rw [hadv]
    refine ⟨hq,.refl q,rfl,rfl,fun _ _ h _ => h,?_,?_⟩
    · rintro d ⟨⟩
      exact hplaced
    · rintro d ⟨⟩ -
      exact ⟨hun,rfl,hown hun⟩
  · have hun : c.step.unlinked := by rw [hstep]; rfl
    rw [hadv]
    refine ⟨hq.link htail hnone (hown hun),Queue.link_extends _ _ _,rfl,rfl,
      fun _ _ h hne => h.link htail (hne hun),?_,?_⟩
    · rintro d ⟨⟩
      -- The new last node stands one behind the tail it was linked to.
      obtain ⟨k,hk⟩ := List.mem_iff_getElem?.mp htail
      have hlen := hq.chained.length_of_next_none hk hnone
      refine ⟨k,(Queue.link_extends _ _ _).at hk,?_⟩
      rw [Queue.chain_link,← hlen]
      simp [goto]
    · rintro d ⟨⟩ hd
      cases hd
  · rw [hadv]
    refine ⟨hq.casTail hold hnext,hq.casTail_extends hold hnext,Queue.casTail_head _ _ _,
      Queue.casTail_dequeued _ _ _,fun _ _ h _ => h.casTail old next,?_,?_⟩
    · rintro d ⟨⟩
      obtain rfl | rfl := hst
      · trivial
      · trivial
    · rintro d ⟨⟩ hd
      have hcun : c.step.unlinked := hun.symm.trans hd
      exact ⟨hcun,rfl,(hown hcun).casTail old next⟩
  · rw [hadv]
    exact ⟨⟨hq.chained,hq.allocated,hq.messages,hq.head_at,hq.tail_at⟩,
      ⟨List.prefix_refl _,Nat.le_refl _,fun _ h => h⟩,rfl,rfl,
      fun _ _ h _ => ⟨h.allocated,h.notMem,h.content⟩,nofun,nofun⟩

/-- What an operation of the consumer guarantees. -/
structure Dequeue.Guarantee (q r : Queue) (o : Outcome) : Prop where
  spine : r.Spine
  ext : q.Extends r
  privates : ∀ node m, q.Private node m → r.Private node m
  placed : ∀ e, o = .goesOn e → e.Placed r

theorem Dequeue.guarantee {q r : Queue} {d : Dequeue} {o : Outcome} (hq : q.Spine)
    (hd : d.Placed q) (h : d.advance q = some (r,o)) : Guarantee q r o := by
  obtain ⟨e,rfl,rfl,hplaced,-⟩ | ⟨-,-,rfl,rfl⟩ | ⟨b,old,next,hold,hnext,-,rfl,rfl⟩ |
    ⟨l,hl,hfrom,-,rfl,rfl⟩ | ⟨head,m,rfl,rfl,rfl⟩ | ⟨head,m,-,rfl,rfl⟩ := advance_cases hq hd h
  · refine ⟨hq,.refl _,fun _ _ hp => hp,?_⟩
    rintro e' ⟨⟩
    exact hplaced
  · exact ⟨hq,.refl _,fun _ _ hp => hp,nofun⟩
  · refine ⟨hq.casTail hold hnext,hq.casTail_extends hold hnext,
      fun _ _ hp => hp.casTail old next,?_⟩
    rintro e ⟨⟩
    trivial
  · refine ⟨hq.swingHead (by rw [Queue.chain_succ,hl]; rfl) hfrom,
      ⟨List.prefix_refl _,Nat.le_refl _,fun _ ht => ht⟩,
      fun _ _ hp => ⟨hp.allocated,hp.notMem,hp.content⟩,?_⟩
    rintro e ⟨⟩
    exact ⟨rfl,q.dequeued,rfl,hq.head_at⟩
  · refine ⟨⟨hq.chained,hq.allocated,hq.messages,hq.head_at,hq.tail_at⟩,
      ⟨List.prefix_refl _,Nat.le_refl _,fun _ ht => ht⟩,
      fun _ _ hp => ⟨hp.allocated,hp.notMem,hp.content⟩,?_⟩
    rintro e ⟨⟩
    exact hd
  · exact ⟨hq,.refl _,fun _ _ hp => hp,nofun⟩

namespace State

structure Threads (s : State) : Prop where
  spine : s.queue.Spine
  placed : ∀ i c, s.producers i = some c → c.Placed s.queue
  owned : ∀ i c, s.producers i = some c → c.step.unlinked → s.queue.Private c.node c.message
  distinct : ∀ i j c d, s.producers i = some c → s.producers j = some d →
    c.step.unlinked → d.step.unlinked → c.node = d.node → i = j
  consumer : ∀ d, s.consumer = some d → d.Placed s.queue

theorem threads_new : Threads new :=
  ⟨Queue.spine_new,nofun,nofun,nofun,nofun⟩

theorem Threads.startEnqueue {s : State} (h : s.Threads) (i : ℕ) (m : WebSocketMessage) :
    (s.startEnqueue i m).Threads where
  spine := h.spine.alloc m
  placed := by
    intro j c hj
    obtain ⟨rfl,hc⟩ | ⟨-,hj⟩ := update_eq_some hj
    · cases hc
      trivial
    · exact (h.placed j c hj).extend (Queue.alloc_extends _ _)
  owned := by
    intro j c hj hun
    obtain ⟨rfl,hc⟩ | ⟨-,hj⟩ := update_eq_some hj
    · cases hc
      exact h.spine.private_alloc m
    · exact (h.owned j c hj hun).alloc m
  distinct := by
    intro j k c d hj hk hc hd heq
    obtain ⟨hji,hj'⟩ | ⟨-,hj'⟩ := update_eq_some hj
    · obtain ⟨hki,-⟩ | ⟨-,hk'⟩ := update_eq_some hk
      · exact hji.trans hki.symm
      · cases hj'
        exact absurd heq.symm (Nat.ne_of_lt (h.owned k d hk' hd).allocated)
    · obtain ⟨-,hk'⟩ | ⟨-,hk'⟩ := update_eq_some hk
      · cases hk'
        exact absurd heq (Nat.ne_of_lt (h.owned j c hj' hc).allocated)
      · exact h.distinct j k c d hj' hk' hc hd heq
  consumer := fun d hd =>
    (h.consumer d hd).extend (Queue.alloc_extends _ _) rfl rfl

theorem Threads.produce {s : State} (h : s.Threads) {i : ℕ} {c : Enqueue}
    (hc : s.producers i = some c) {r : Queue} {c' : Option Enqueue}
    (hg : Enqueue.Guarantee s.queue r c c') : (s.produce i r c').Threads where
  spine := hg.spine
  placed := by
    intro j d hj
    obtain ⟨-,hd⟩ | ⟨-,hj⟩ := update_eq_some hj
    · exact hg.placed d hd
    · exact (h.placed j d hj).extend hg.ext
  owned := by
    intro j d hj hun
    obtain ⟨-,hd⟩ | ⟨hji,hj⟩ := update_eq_some hj
    · exact (hg.owned d hd hun).2.2
    · apply hg.others _ _ (h.owned j d hj hun)
      intro hcun hnode
      exact hji (h.distinct j i d c hj hc hun hcun hnode)
  distinct := by
    intro j k d e hj hk hd he heq
    obtain ⟨hji,hj'⟩ | ⟨-,hj'⟩ := update_eq_some hj
    · obtain ⟨hki,-⟩ | ⟨-,hk'⟩ := update_eq_some hk
      · exact hji.trans hki.symm
      · obtain ⟨hcun,hnode,-⟩ := hg.owned d hj' hd
        exact hji.trans (h.distinct i k c e hc hk' hcun he (hnode.symm.trans heq))
    · obtain ⟨hki,hk'⟩ | ⟨-,hk'⟩ := update_eq_some hk
      · obtain ⟨hcun,hnode,-⟩ := hg.owned e hk' he
        exact (h.distinct j i d c hj' hc hd hcun (heq.trans hnode)).trans hki.symm
      · exact h.distinct j k d e hj' hk' hd he heq
  consumer := fun d hd => (h.consumer d hd).extend hg.ext hg.head hg.dequeued

theorem Threads.consume {s : State} (h : s.Threads) {r : Queue} {o : Outcome}
    (hg : Dequeue.Guarantee s.queue r o) : (s.consume r o).Threads := by
  have hplaced : ∀ i c, s.producers i = some c → c.Placed r :=
    fun i c hi => (h.placed i c hi).extend hg.ext
  have howned : ∀ i c, s.producers i = some c → c.step.unlinked → r.Private c.node c.message :=
    fun i c hi hun => hg.privates _ _ (h.owned i c hi hun)
  cases o with
  | goesOn next =>
    refine ⟨hg.spine,hplaced,howned,h.distinct,?_⟩
    rintro e ⟨⟩
    exact hg.placed next rfl
  | returns result => exact ⟨hg.spine,hplaced,howned,h.distinct,nofun⟩
  | drops head result => exact ⟨hg.spine,hplaced,howned,h.distinct,nofun⟩

/-- The four kinds of step. -/
theorem step_cases {s t : State} {e : Event} (h : step s e = some t) :
    (∃ i m, e = .startEnqueue i m ∧ s.producers i = none ∧ t = s.startEnqueue i m) ∨
    (∃ i c, e = .producer i ∧ s.producers i = some c ∧
      t = s.produce i (c.advance s.queue i).1 (c.advance s.queue i).2) ∨
    (e = .startDequeue ∧ s.consumer = none ∧ t = {s with consumer := some .loadHead}) ∨
    (∃ d r o, e = .consumer ∧ s.consumer = some d ∧ d.advance s.queue = some (r,o) ∧
      t = s.consume r o) := by
  cases e with
  | startEnqueue i m =>
    left
    simp only [step] at h
    cases hi : s.producers i with
    | none =>
      simp only [hi,Option.some.injEq] at h
      exact ⟨i,m,rfl,hi,h.symm⟩
    | some c => simp [hi] at h
  | producer i =>
    right
    left
    simp only [step] at h
    cases hi : s.producers i with
    | none => simp [hi] at h
    | some c =>
      simp only [hi,Option.some.injEq] at h
      exact ⟨i,c,rfl,hi,h.symm⟩
  | startDequeue =>
    right
    right
    left
    simp only [step] at h
    cases hd : s.consumer with
    | none =>
      simp only [hd,Option.some.injEq] at h
      exact ⟨rfl,rfl,h.symm⟩
    | some d => simp [hd] at h
  | consumer =>
    right
    right
    right
    simp only [step] at h
    cases hd : s.consumer with
    | none => simp [hd] at h
    | some d =>
      simp only [hd,Option.map_eq_some_iff] at h
      obtain ⟨⟨r,o⟩,hadv,ht⟩ := h
      exact ⟨d,r,o,rfl,rfl,hadv,ht.symm⟩

theorem Threads.guarantee {s : State} (h : s.Threads) {i : ℕ} {c : Enqueue}
    (hc : s.producers i = some c) :
    Enqueue.Guarantee s.queue (c.advance s.queue i).1 c (c.advance s.queue i).2 :=
  Enqueue.guarantee h.spine (h.placed i c hc) (h.owned i c hc) i

theorem Threads.step {s t : State} {e : Event} (h : s.Threads) (hstep : State.step s e = some t) :
    t.Threads := by
  obtain ⟨i,m,-,-,rfl⟩ | ⟨i,c,-,hc,rfl⟩ | ⟨-,-,rfl⟩ | ⟨d,r,o,-,hd,hadv,rfl⟩ := step_cases hstep
  · exact h.startEnqueue i m
  · exact h.produce hc (h.guarantee hc)
  · refine ⟨h.spine,h.placed,h.owned,h.distinct,?_⟩
    rintro d ⟨⟩
    trivial
  · exact h.consume (Dequeue.guarantee h.spine (h.consumer d hd) hadv)

end State
end LockFreeQueue
end UProtocols
