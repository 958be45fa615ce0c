import Mathlib.Data.List.Infix
import UProtocols.ArpPacketCodec
import UProtocols.Runs

/-!
# Hosts that speak ARP

Any number of hosts, each an `ArpHandler` of `arp_implementation.rs`, on one network. They send
`new_request` and `send_gratuitous`, answer with what `handle_packet` returns, and clean up their
caches; frames are bytes. The network may lose, repeat, delay and reorder frames, and anybody may
inject any bytes. `ArpSpoofDetector` is at the end.
-/

namespace UProtocols
namespace Arp

open Function Runs

namespace ArpPacket

def newRequest (senderMac : MacAddress) (senderIp : Ipv4Addr) (targetIp : Ipv4Addr) :
    ArpPacket where
  hwType := 1
  protoType := 0x0800
  hwAddrLen := 6
  protoAddrLen := 4
  operation := .request
  senderHwAddr := senderMac
  senderProtoAddr := senderIp
  targetHwAddr := ⟨Vector.replicate 6 0⟩
  targetProtoAddr := targetIp

def newGratuitous (mac : MacAddress) (ip : Ipv4Addr) : ArpPacket where
  hwType := 1
  protoType := 0x0800
  hwAddrLen := 6
  protoAddrLen := 4
  operation := .reply
  senderHwAddr := mac
  senderProtoAddr := ip
  targetHwAddr := ⟨Vector.replicate 6 0⟩
  targetProtoAddr := ip

def isGratuitous (p : ArpPacket) : Bool := p.senderProtoAddr == p.targetProtoAddr

end ArpPacket

def ArpHandler.sendGratuitous (h : ArpHandler) : ArpPacket := .newGratuitous h.localMac h.localIp

/-! ## The network -/

/-- The hosts by their addresses, the frames that are or were on the wire, and those of them that
no host sent. -/
structure Network where
  handlers : Ipv4Addr → Option ArpHandler
  wire : List (List UInt8)
  injected : List (List UInt8)

inductive NetworkEvent
  | request (ip target : Ipv4Addr)
  | gratuitous (ip : Ipv4Addr)
  | receive (ip : Ipv4Addr) (k : ℕ) (now : ℤ)
  | cleanup (ip : Ipv4Addr) (now : ℤ)
  | inject (data : List UInt8)

namespace Network

/-- One handler for each host, with an empty cache. -/
def start (hosts : Ipv4Addr → Option MacAddress) (timeout : ℕ) : Network where
  handlers ip := (hosts ip).map fun mac => .new ip mac timeout
  wire := []
  injected := []

/-- A host gets the bytes of a frame; what it answers goes on the wire. -/
def receive (s : Network) (ip : Ipv4Addr) (h : ArpHandler) (data : List UInt8) (now : ℤ) :
    Network :=
  match ArpPacket.fromBytes data with
  | .error _ => s
  | .ok packet =>
    let r := h.handlePacket packet now
    {s with handlers := update s.handlers ip (some r.1),
            wire := s.wire ++ (r.2.map ArpPacket.toBytes).toList}

def step (s : Network) : NetworkEvent → Option Network
  | .request ip target => (s.handlers ip).map fun h =>
    {s with wire := s.wire ++ [(ArpPacket.newRequest h.localMac h.localIp target).toBytes]}
  | .gratuitous ip => (s.handlers ip).map fun h =>
    {s with wire := s.wire ++ [h.sendGratuitous.toBytes]}
  | .receive ip k now => (s.handlers ip).bind fun h => (s.wire[k]?).map fun data =>
    s.receive ip h data now
  | .cleanup ip now => (s.handlers ip).map fun h =>
    {s with handlers := update s.handlers ip (some {h with cache := h.cache.cleanup now})}
  | .inject data => some {s with wire := s.wire ++ [data], injected := s.injected ++ [data]}

/-! ## Where a mapping comes from -/

/-- The host at `ip` has this address, or an injected frame says so. -/
def Vouched (hosts : Ipv4Addr → Option MacAddress) (injected : List (List UInt8)) (ip : Ipv4Addr)
    (mac : MacAddress) : Prop :=
  hosts ip = some mac ∨ ∃ data ∈ injected, ∃ p, ArpPacket.fromBytes data = .ok p ∧
    p.senderProtoAddr = ip ∧ p.senderHwAddr = mac

/-- A handler that knows its own addresses and has only vouched mappings. -/
structure Honest (hosts : Ipv4Addr → Option MacAddress) (timeout : ℕ)
    (injected : List (List UInt8)) (ip : Ipv4Addr) (h : ArpHandler) : Prop where
  localIp : h.localIp = ip
  localMac : hosts ip = some h.localMac
  timeout : h.cache.timeout = timeout * 1000000000
  cached : ∀ target entry, h.cache.entries target = some entry →
    entry.isStatic = false ∧ Vouched hosts injected target entry.macAddr

structure Sound (hosts : Ipv4Addr → Option MacAddress) (timeout : ℕ) (s : Network) : Prop where
  handlers : ∀ ip h, s.handlers ip = some h → Honest hosts timeout s.injected ip h
  wire : ∀ data ∈ s.wire, ∀ p, ArpPacket.fromBytes data = .ok p →
    Vouched hosts s.injected p.senderProtoAddr p.senderHwAddr

variable {hosts : Ipv4Addr → Option MacAddress} {timeout : ℕ} {s t : Network}
  {injected : List (List UInt8)} {ip target : Ipv4Addr} {mac : MacAddress} {h : ArpHandler}
  {packet : ArpPacket} {now : ℤ} {events : List NetworkEvent}

theorem Vouched.append (h : Vouched hosts injected ip mac) (more : List (List UInt8)) :
    Vouched hosts (injected ++ more) ip mac := by
  obtain htrue | ⟨data,hdata,hp⟩ := h
  · exact .inl htrue
  · exact .inr ⟨data,List.mem_append_left _ hdata,hp⟩

theorem sound_start : Sound hosts timeout (start hosts timeout) := by
  refine ⟨fun ip h hh => ?_,by simp [start]⟩
  obtain ⟨mac,hmac,rfl⟩ := Option.map_eq_some_iff.mp hh
  exact ⟨rfl,hmac,rfl,by simp [ArpHandler.new,ArpCache.new]⟩

/-- What a packet does: its sender is learned, and a request for the host's address is answered. -/
theorem handlePacket_eq (h : ArpHandler) (packet : ArpPacket) (now : ℤ) :
    h.handlePacket packet now =
      ({h with cache := h.cache.add packet.senderProtoAddr packet.senderHwAddr false now},
        if packet.targetProtoAddr = h.localIp ∧ packet.operation = .request then
          some (.newReply h.localMac h.localIp packet.senderHwAddr packet.senderProtoAddr)
        else none) := by
  unfold ArpHandler.handlePacket
  by_cases htarget : packet.targetProtoAddr = h.localIp
  · cases hop : packet.operation <;> simp [htarget]
  · simp [htarget]

theorem Honest.handlePacket {h : ArpHandler} (hh : Honest hosts timeout injected ip h)
    (hvouched : Vouched hosts injected packet.senderProtoAddr packet.senderHwAddr) :
    Honest hosts timeout injected ip (h.handlePacket packet now).1 := by
  rw [handlePacket_eq]
  refine ⟨hh.localIp,hh.localMac,hh.timeout,fun target entry hentry => ?_⟩
  by_cases htarget : target = packet.senderProtoAddr
  · subst htarget
    simp only [ArpCache.add,update_self,Option.some.injEq] at hentry
    subst hentry
    exact ⟨rfl,hvouched⟩
  · simp only [ArpCache.add,update_of_ne htarget] at hentry
    exact hh.cached target entry hentry

theorem Honest.cleanup {h : ArpHandler} (hh : Honest hosts timeout injected ip h) :
    Honest hosts timeout injected ip {h with cache := h.cache.cleanup now} := by
  refine ⟨hh.localIp,hh.localMac,hh.timeout,fun target entry hentry => ?_⟩
  exact hh.cached target entry (Option.eq_some_of_filter_eq_some hentry)

theorem Honest.append {h : ArpHandler} (hh : Honest hosts timeout injected ip h)
    (more : List (List UInt8)) : Honest hosts timeout (injected ++ more) ip h :=
  ⟨hh.localIp,hh.localMac,hh.timeout,fun target entry hentry =>
    ⟨(hh.cached target entry hentry).1,(hh.cached target entry hentry).2.append more⟩⟩

/-- A host that is honest puts a packet with its own addresses on the wire. -/
theorem Sound.send (hs : Sound hosts timeout s) (hip : packet.senderProtoAddr = ip)
    (hmac : hosts ip = some packet.senderHwAddr) :
    Sound hosts timeout {s with wire := s.wire ++ [packet.toBytes]} := by
  refine ⟨hs.handlers,?_⟩
  simp only [List.forall_mem_append,List.forall_mem_singleton]
  refine ⟨hs.wire,fun p hp => .inl ?_⟩
  rw [ArpPacket.fromBytes_toBytes] at hp
  cases hp
  rw [hip,hmac]

theorem Sound.update (hs : Sound hosts timeout s)
    (hh : Honest hosts timeout s.injected ip h) :
    Sound hosts timeout {s with handlers := Function.update s.handlers ip (some h)} := by
  refine ⟨fun ip' h' hh' => ?_,hs.wire⟩
  by_cases hip : ip' = ip
  · subst hip
    simp only [update_self,Option.some.injEq] at hh'
    exact hh' ▸ hh
  · simp only [update_of_ne hip] at hh'
    exact hs.handlers ip' h' hh'

theorem Sound.receive (hs : Sound hosts timeout s) (hh : s.handlers ip = some h)
    {data : List UInt8} (hdata : data ∈ s.wire) : Sound hosts timeout (s.receive ip h data now) := by
  unfold Network.receive
  split
  · exact hs
  · rename_i packet hpacket
    have honest := hs.handlers ip h hh
    have hlearned : Honest hosts timeout s.injected ip (h.handlePacket packet now).1 :=
      honest.handlePacket (hs.wire data hdata packet hpacket)
    have hnext := hs.update hlearned
    simp only [handlePacket_eq] at hnext ⊢
    split
    · exact hnext.send honest.localIp honest.localMac
    · simpa using hnext

theorem Sound.step {event : NetworkEvent} (hs : Sound hosts timeout s)
    (hstep : step s event = some t) : Sound hosts timeout t := by
  cases event with
  | request ip target =>
    obtain ⟨h,hh,rfl⟩ := Option.map_eq_some_iff.mp hstep
    exact hs.send (hs.handlers ip h hh).localIp (hs.handlers ip h hh).localMac
  | gratuitous ip =>
    obtain ⟨h,hh,rfl⟩ := Option.map_eq_some_iff.mp hstep
    exact hs.send (hs.handlers ip h hh).localIp (hs.handlers ip h hh).localMac
  | receive ip k now =>
    obtain ⟨h,hh,hstep⟩ := Option.bind_eq_some_iff.mp hstep
    obtain ⟨data,hdata,rfl⟩ := Option.map_eq_some_iff.mp hstep
    exact hs.receive hh (List.mem_of_getElem? hdata)
  | cleanup ip now =>
    obtain ⟨h,hh,rfl⟩ := Option.map_eq_some_iff.mp hstep
    exact hs.update (hs.handlers ip h hh).cleanup
  | inject data =>
    cases hstep
    refine ⟨fun ip h hh => (hs.handlers ip h hh).append [data],?_⟩
    simp only [List.forall_mem_append,List.forall_mem_singleton]
    refine ⟨fun d hd p hp => (hs.wire d hd p hp).append [data],fun p hp => .inr ?_⟩
    exact ⟨data,by simp,p,hp,rfl,rfl⟩

theorem sound_run (h : exec step (start hosts timeout) events = some s) :
    Sound hosts timeout s :=
  exec_invariant (fun _ _ _ ht hs => hs.step ht) h sound_start

/-- What a host resolves is the address of the host with that protocol address, unless an injected
frame has claimed it: no run of the hosts alone ever gives a wrong answer. -/
theorem resolve_vouched (hrun : exec step (start hosts timeout) events = some s)
    (hh : s.handlers ip = some h) (hresolve : h.resolve target now = some mac) :
    hosts target = some mac ∨ ∃ data ∈ s.injected, ∃ p, ArpPacket.fromBytes data = .ok p ∧
      p.senderProtoAddr = target ∧ p.senderHwAddr = mac := by
  have honest := (sound_run hrun).handlers ip h hh
  rw [ArpHandler.resolve,ArpCache.lookup_eq] at hresolve
  obtain ⟨entry,hentry,rfl⟩ := Option.map_eq_some_iff.mp hresolve
  exact (honest.cached target entry (Option.eq_some_of_filter_eq_some hentry)).2

/-! ## Requests and replies -/

/-- Frames and hosts stay. -/
theorem step_grows {event : NetworkEvent} (hstep : step s event = some t) :
    s.wire <+: t.wire ∧ ∀ ip, (s.handlers ip).isSome → (t.handlers ip).isSome := by
  have hupdate : ∀ (ip : Ipv4Addr) (h : ArpHandler) (ip' : Ipv4Addr), (s.handlers ip').isSome →
      (update s.handlers ip (some h) ip').isSome := by
    intro ip h ip' hsome
    by_cases hip : ip' = ip <;> simp_all
  cases event with
  | request ip target =>
    obtain ⟨h,hh,rfl⟩ := Option.map_eq_some_iff.mp hstep
    exact ⟨List.prefix_append _ _,fun _ => id⟩
  | gratuitous ip =>
    obtain ⟨h,hh,rfl⟩ := Option.map_eq_some_iff.mp hstep
    exact ⟨List.prefix_append _ _,fun _ => id⟩
  | receive ip k now =>
    obtain ⟨h,hh,hstep⟩ := Option.bind_eq_some_iff.mp hstep
    obtain ⟨data,hdata,rfl⟩ := Option.map_eq_some_iff.mp hstep
    unfold receive
    split
    · exact ⟨List.prefix_refl _,fun _ => id⟩
    · exact ⟨List.prefix_append _ _,hupdate ip _⟩
  | cleanup ip now =>
    obtain ⟨h,hh,rfl⟩ := Option.map_eq_some_iff.mp hstep
    exact ⟨List.prefix_refl _,hupdate ip _⟩
  | inject data =>
    cases hstep
    exact ⟨List.prefix_append _ _,fun _ => id⟩

theorem exec_grows (hrun : exec step s events = some t) :
    s.wire <+: t.wire ∧ ∀ ip, (s.handlers ip).isSome → (t.handlers ip).isSome :=
  exec_invariant (I := fun u => s.wire <+: u.wire ∧ ∀ ip, (s.handlers ip).isSome →
    (u.handlers ip).isSome) (fun _ _ _ ht hs => by
      obtain ⟨hwire,hhandlers⟩ := step_grows ht
      exact ⟨hs.1.trans hwire,fun ip hip => hhandlers ip (hs.2 ip hip)⟩) hrun
    ⟨List.prefix_refl _,fun _ => id⟩

theorem exists_handler (hrun : exec step (start hosts timeout) events = some s)
    (hip : (hosts ip).isSome) : ∃ h, s.handlers ip = some h :=
  Option.isSome_iff_exists.mp ((exec_grows hrun).2 ip (by simpa [start] using hip))

/-- A frame that is put on the wire keeps its place. -/
theorem getElem?_wire {data : List UInt8} (hwire : t.wire = s.wire ++ [data]) {u : Network}
    (hrun : exec step t events = some u) : u.wire[s.wire.length]? = some data := by
  obtain ⟨more,hmore⟩ := (exec_grows hrun).1
  simp [← hmore,hwire]

theorem step_request (hs : Sound hosts timeout s) (hip : hosts ip = some mac)
    (hstep : step s (.request ip target) = some t) :
    t.wire = s.wire ++ [(ArpPacket.newRequest mac ip target).toBytes] := by
  obtain ⟨h,hh,rfl⟩ := Option.map_eq_some_iff.mp hstep
  have honest := hs.handlers ip h hh
  have hmac : mac = h.localMac := Option.some.inj (hip.symm.trans honest.localMac)
  simp [hmac,honest.localIp]

theorem step_receive {k : ℕ} (hh : s.handlers ip = some h)
    (hframe : s.wire[k]? = some packet.toBytes) : step s (.receive ip k now) =
      some ⟨update s.handlers ip (some (h.handlePacket packet now).1),
        s.wire ++ ((h.handlePacket packet now).2.map ArpPacket.toBytes).toList,s.injected⟩ := by
  simp only [step,hh,hframe,Option.bind_some,Option.map_some,receive,ArpPacket.fromBytes_toBytes]

/-- A request for the address of a host is answered with its addresses. -/
theorem step_receive_request {k : ℕ} {macA : MacAddress} {a : Ipv4Addr} (now : ℤ)
    (hs : Sound hosts timeout s) (hh : s.handlers ip = some h) (hip : hosts ip = some mac)
    (hframe : s.wire[k]? = some (ArpPacket.newRequest macA a ip).toBytes) :
    ∃ t, step s (.receive ip k now) = some t ∧
      t.wire = s.wire ++ [(ArpPacket.newReply mac ip macA a).toBytes] := by
  have honest := hs.handlers ip h hh
  have hmac : h.localMac = mac := Option.some.inj (honest.localMac.symm.trans hip)
  refine ⟨_,step_receive hh hframe,?_⟩
  simp [handlePacket_eq,honest.localIp,hmac,ArpPacket.newRequest]

/-- The host has a mapping, learned at `added`, which it drops after `timeout`. -/
def Learns (a b : Ipv4Addr) (mac : MacAddress) (added : ℤ) (timeout : ℕ) (s : Network) : Prop :=
  ∃ h, s.handlers a = some h ∧ h.cache.timeout = timeout ∧
    h.cache.entries b = some ⟨mac,added,false⟩

/-- The event brings the host no frame, and does not clean up its cache before `added` or after
`last`. -/
def Quiet (a : Ipv4Addr) (added last : ℤ) : NetworkEvent → Prop
  | .receive ip _ _ => ip ≠ a
  | .cleanup ip now => ip = a → added ≤ now ∧ now ≤ last
  | _ => True

theorem fresh_of_le {added last : ℤ} {timeout : ℕ} (hle : added ≤ now) (hlast : now ≤ last)
    (hlt : last < added + timeout) : ArpCache.fresh timeout now ⟨mac,added,false⟩ = true := by
  have helapsed : (now - added).toNat < timeout := by omega
  simp [ArpCache.fresh,durationSince,hle,helapsed]

/-- Such events leave the mapping in the cache until the timeout. -/
theorem learns_step {e : NetworkEvent} {a b : Ipv4Addr} {added last : ℤ} {timeout : ℕ}
    (hlt : last < added + timeout) (hstep : step s e = some t) (hquiet : Quiet a added last e)
    (h : Learns a b mac added timeout s) : Learns a b mac added timeout t := by
  cases e with
  | request ip target =>
    obtain ⟨_,-,rfl⟩ := Option.map_eq_some_iff.mp hstep
    exact h
  | gratuitous ip =>
    obtain ⟨_,-,rfl⟩ := Option.map_eq_some_iff.mp hstep
    exact h
  | inject data =>
    cases hstep
    exact h
  | receive ip k now =>
    obtain ⟨hA,hh,hentry⟩ := h
    obtain ⟨_,-,hstep⟩ := Option.bind_eq_some_iff.mp hstep
    obtain ⟨data,-,rfl⟩ := Option.map_eq_some_iff.mp hstep
    refine ⟨hA,?_,hentry⟩
    unfold receive
    split
    · exact hh
    · exact (update_of_ne (Ne.symm hquiet) _ _).trans hh
  | cleanup ip now =>
    obtain ⟨hA,hh,htimeout,hentry⟩ := h
    obtain ⟨h',hh',rfl⟩ := Option.map_eq_some_iff.mp hstep
    by_cases hip : ip = a
    · subst hip
      obtain rfl : hA = h' := Option.some.inj (hh.symm.trans hh')
      obtain ⟨hle,hlast⟩ := hquiet rfl
      refine ⟨_,update_self ..,htimeout,?_⟩
      simp [ArpCache.cleanup,hentry,htimeout,fresh_of_le hle hlast hlt]
    · exact ⟨hA,(update_of_ne (Ne.symm hip) _ _).trans hh,htimeout,hentry⟩

theorem Learns.resolve {a b : Ipv4Addr} {added : ℤ} {timeout : ℕ}
    (h : Learns a b mac added timeout s) (hle : added ≤ now) (hlt : now < added + timeout) :
    ∃ hA, s.handlers a = some hA ∧ hA.resolve b now = some mac := by
  obtain ⟨hA,hh,htimeout,hentry⟩ := h
  refine ⟨hA,hh,?_⟩
  rw [ArpHandler.resolve,ArpCache.lookup_eq,hentry,htimeout]
  simp [fresh_of_le hle (le_refl now) hlt]

/-- However long frames take and whatever else happens on the network meanwhile, forged frames
included: a host that gets a request for its address answers it, and a host that gets the answer to
its request resolves the address correctly until the timeout, unless another frame comes in. -/
theorem request_resolves {a b : Ipv4Addr} {macA macB : MacAddress}
    {fs : List NetworkEvent} (hrun : exec step (start hosts timeout) events = some s)
    (ha : hosts a = some macA) (hb : hosts b = some macB) (hrequest : exec step s (.request a b::fs) = some t)
    (received answered : ℤ) :
    ∃ r, step t (.receive b s.wire.length received) = some r ∧
      ∀ gs u, exec step r gs = some u →
        ∃ v, step u (.receive a t.wire.length answered) = some v ∧
          ∀ ks w now, exec step v ks = some w → (∀ e ∈ ks, Quiet a answered now e) →
            answered ≤ now → now < answered + timeout * 1000000000 →
              ∃ h, w.handlers a = some h ∧ h.resolve b now = some macB := by
  obtain ⟨s₁,hsent,hwait⟩ := exec_cons.mp hrequest
  have ht := exec_append.mpr ⟨s,hrun,hrequest⟩
  obtain ⟨hB,hhB⟩ := exists_handler ht (show (hosts b).isSome by simp [hb])
  have hframe := getElem?_wire (step_request (sound_run hrun) ha hsent) hwait
  obtain ⟨r,hr,hreply⟩ := step_receive_request received (sound_run ht) hhB hb hframe
  refine ⟨r,hr,fun gs u hu => ?_⟩
  have hu' := exec_append.mpr ⟨t,ht,exec_cons.mpr ⟨r,hr,hu⟩⟩
  obtain ⟨hA,hhA⟩ := exists_handler hu' (show (hosts a).isSome by simp [ha])
  have honest := (sound_run hu').handlers a hA hhA
  have hanswer := getElem?_wire hreply hu
  refine ⟨_,step_receive hhA hanswer,fun ks w now hks hquiet hle hlt => ?_⟩
  have hlt' : now < answered + (timeout * 1000000000 : ℕ) := by exact_mod_cast hlt
  refine Learns.resolve ?_ hle hlt'
  refine exec_invariant_of_forall_mem (P := Quiet a answered now)
    (I := Learns a b macB answered (timeout * 1000000000))
    (fun _ _ _ hst hq hs => learns_step hlt' hst hq hs) hks hquiet ?_
  refine ⟨_,update_self ..,?_,?_⟩
  · rw [ArpHandler.handlePacket_cache]
    exact honest.timeout
  · simp [ArpCache.add,ArpPacket.newReply]

def hostAt (n : UInt8) : Ipv4Addr := ⟨#v[192,168,1,n]⟩

def alice : Ipv4Addr := hostAt 10

def bob : Ipv4Addr := hostAt 100

def macOf (n : UInt8) : MacAddress := ⟨#v[0x02,0,0,0,0,n]⟩

def twoHosts (ip : Ipv4Addr) : Option MacAddress :=
  if ip = alice then some (macOf 1) else if ip = bob then some (macOf 2) else none

/-- Somebody else claims the address of `bob` before he answers. -/
def forged : List NetworkEvent :=
  [.inject (ArpPacket.newGratuitous (macOf 9) bob).toBytes,.receive alice 1 5]

theorem resolve_vouched_forged : ∃ s h, exec step (start twoHosts 300) (.request alice bob::forged) =
    some s ∧ s.handlers alice = some h ∧ h.resolve bob 6 = some (macOf 9) ∧
    (twoHosts bob = some (macOf 9) ∨ ∃ data ∈ s.injected, ∃ p, ArpPacket.fromBytes data = .ok p ∧
      p.senderProtoAddr = bob ∧ p.senderHwAddr = macOf 9) := by
  refine ⟨_,_,rfl,rfl,by decide +kernel,?_⟩
  exact resolve_vouched
    (show exec step (start twoHosts 300) (.request alice bob::forged) = some _ from rfl)
    (show Network.handlers _ alice = some _ from rfl)
    (show ArpHandler.resolve _ bob 6 = some (macOf 9) by decide +kernel)

theorem request_resolves_forged : ∃ t r v w, exec step (start twoHosts 300)
      (.request alice bob::forged) = some t ∧ step t (.receive bob 0 7) = some r ∧
    step r (.receive alice 2 8) = some v ∧ step v (.cleanup alice 9) = some w ∧
      ∃ h, w.handlers alice = some h ∧ h.resolve bob 10 = some (macOf 2) := by
  obtain ⟨r,hr,hresolves⟩ := request_resolves (show exec step (start twoHosts 300) [] = some _ from rfl)
    (show twoHosts alice = some (macOf 1) from rfl) (show twoHosts bob = some (macOf 2) from rfl)
    (show exec step _ (.request alice bob::forged) = some _ from rfl) 7 8
  obtain ⟨v,hv,hall⟩ := hresolves [] r rfl
  obtain ⟨w,hw⟩ : ∃ w, step v (.cleanup alice 9) = some w := by
    obtain rfl := Option.some.inj hr
    obtain rfl := Option.some.inj hv
    exact ⟨_,rfl⟩
  exact ⟨_,r,v,w,rfl,hr,hv,hw,hall [.cleanup alice 9] w 10 (exec_cons.mpr ⟨w,hw,rfl⟩)
    (by simp [Quiet]) (by decide) (by decide)⟩

end Network

/-! ## The spoof detector -/

structure ArpSpoofDetector where
  knownMappings : Ipv4Addr → Option MacAddress

namespace ArpSpoofDetector

def new : ArpSpoofDetector := ⟨fun _ => none⟩

/-- True unless the sender is known under another address. -/
def checkPacket (d : ArpSpoofDetector) (packet : ArpPacket) : ArpSpoofDetector × Bool :=
  match d.knownMappings packet.senderProtoAddr with
  | some knownMac => (d,knownMac = packet.senderHwAddr)
  | none => (⟨update d.knownMappings packet.senderProtoAddr (some packet.senderHwAddr)⟩,true)

/-- The verdicts on a stream of packets. -/
def verdicts (d : ArpSpoofDetector) : List ArpPacket → List Bool
  | [] => []
  | packet::packets => (d.checkPacket packet).2::verdicts (d.checkPacket packet).1 packets

/-- The address that a stream first gives for `ip`, where the detector does not know one. -/
def first (d : ArpSpoofDetector) (packets : List ArpPacket) (ip : Ipv4Addr) : Option MacAddress :=
  (d.knownMappings ip).or
    ((packets.find? (·.senderProtoAddr = ip)).map ArpPacket.senderHwAddr)

theorem first_checkPacket (d : ArpSpoofDetector) (packet : ArpPacket) (packets : List ArpPacket) :
    (d.checkPacket packet).1.first packets = d.first (packet::packets) := by
  funext ip
  by_cases hip : ip = packet.senderProtoAddr
  · subst hip
    cases hknown : d.knownMappings packet.senderProtoAddr <;> simp [first,checkPacket,hknown]
  · cases hknown : d.knownMappings packet.senderProtoAddr <;>
      simp [first,checkPacket,hknown,hip,Ne.symm hip]

theorem checkPacket_snd (d : ArpSpoofDetector) (packet : ArpPacket) (packets : List ArpPacket) :
    (d.checkPacket packet).2 =
      decide (d.first (packet::packets) packet.senderProtoAddr = some packet.senderHwAddr) := by
  cases hknown : d.knownMappings packet.senderProtoAddr <;> simp [first,checkPacket,hknown]

/-- In every stream, the packets that pass are those that agree with the first one from their
sender's protocol address: a forged mapping is found exactly where it was not the first. -/
theorem verdicts_eq (d : ArpSpoofDetector) (packets : List ArpPacket) :
    d.verdicts packets = packets.map fun packet =>
      decide (d.first packets packet.senderProtoAddr = some packet.senderHwAddr) := by
  induction packets generalizing d with
  | nil => rfl
  | cons packet packets ih =>
    rw [verdicts,ih,List.map_cons,checkPacket_snd d packet packets,first_checkPacket]

end ArpSpoofDetector
end Arp
end UProtocols
