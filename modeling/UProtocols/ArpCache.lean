import Mathlib.Logic.Function.Basic
import Mathlib.Data.Int.Order.Basic

/-!
# The ARP cache and handler

`ArpCache` and `ArpHandler` of `arp_implementation.rs`. A `SystemTime` is a number of
nanoseconds; the clock reading of a call is one of its arguments.
-/

namespace UProtocols
namespace Arp

inductive ArpOperation
  | request
  | reply
  deriving DecidableEq

structure MacAddress where
  bytes : Vector UInt8 6
  deriving DecidableEq

structure Ipv4Addr where
  octets : Vector UInt8 4
  deriving DecidableEq

structure ArpPacket where
  hwType : UInt16
  protoType : UInt16
  hwAddrLen : UInt8
  protoAddrLen : UInt8
  operation : ArpOperation
  senderHwAddr : MacAddress
  senderProtoAddr : Ipv4Addr
  targetHwAddr : MacAddress
  targetProtoAddr : Ipv4Addr
  deriving DecidableEq

def ArpPacket.newReply (senderMac : MacAddress) (senderIp : Ipv4Addr) (targetMac : MacAddress)
    (targetIp : Ipv4Addr) : ArpPacket where
  hwType := 1
  protoType := 0x0800
  hwAddrLen := 6
  protoAddrLen := 4
  operation := .reply
  senderHwAddr := senderMac
  senderProtoAddr := senderIp
  targetHwAddr := targetMac
  targetProtoAddr := targetIp

/-! ## The cache -/

structure ArpCacheEntry where
  macAddr : MacAddress
  timestamp : ℤ
  isStatic : Bool
  deriving DecidableEq

/-- `SystemTime::duration_since`, which fails when the other time is later. -/
def durationSince (time earlier : ℤ) : Option ℕ :=
  if earlier ≤ time then some (time - earlier).toNat else none

structure ArpCache where
  entries : Ipv4Addr → Option ArpCacheEntry
  timeout : ℕ

namespace ArpCache

def new (timeoutSeconds : ℕ) : ArpCache := ⟨fun _ => none,timeoutSeconds * 1000000000⟩

def add (c : ArpCache) (ip : Ipv4Addr) (mac : MacAddress) (isStatic : Bool) (now : ℤ) : ArpCache :=
  {c with entries := Function.update c.entries ip (some ⟨mac,now,isStatic⟩)}

def lookup (c : ArpCache) (ip : Ipv4Addr) (now : ℤ) : Option MacAddress :=
  (c.entries ip).bind fun entry =>
    if entry.isStatic then some entry.macAddr
    else match durationSince now entry.timestamp with
      | some elapsed => if elapsed < c.timeout then some entry.macAddr else none
      | none => none

/-- What `cleanup` retains. -/
def fresh (timeout : ℕ) (now : ℤ) (entry : ArpCacheEntry) : Bool :=
  if entry.isStatic then true
  else match durationSince now entry.timestamp with
    | some elapsed => elapsed < timeout
    | none => false

def cleanup (c : ArpCache) (now : ℤ) : ArpCache :=
  {c with entries := fun ip => (c.entries ip).filter (fresh c.timeout now)}

/-- A lookup returns the address of an entry that `cleanup` would retain. -/
theorem lookup_eq (c : ArpCache) (ip : Ipv4Addr) (now : ℤ) :
    c.lookup ip now = ((c.entries ip).filter (fresh c.timeout now)).map (·.macAddr) := by
  cases hentry : c.entries ip with
  | none => simp [lookup,hentry]
  | some entry =>
    cases hstatic : entry.isStatic with
    | true => simp [lookup,hentry,hstatic,fresh,Option.filter]
    | false =>
      cases helapsed : durationSince now entry.timestamp with
      | none => simp [lookup,hentry,hstatic,fresh,helapsed,Option.filter]
      | some elapsed =>
        by_cases hlt : elapsed < c.timeout <;>
          simp [lookup,hentry,hstatic,fresh,helapsed,hlt,Option.filter]

end ArpCache

/-! ## The handler -/

structure ArpHandler where
  cache : ArpCache
  localIp : Ipv4Addr
  localMac : MacAddress

namespace ArpHandler

def new (localIp : Ipv4Addr) (localMac : MacAddress) (cacheTimeout : ℕ) : ArpHandler :=
  ⟨.new cacheTimeout,localIp,localMac⟩

def handlePacket (h : ArpHandler) (packet : ArpPacket) (now : ℤ) : ArpHandler × Option ArpPacket :=
  let h := {h with cache := h.cache.add packet.senderProtoAddr packet.senderHwAddr false now}
  if packet.targetProtoAddr ≠ h.localIp then (h,none)
  else match packet.operation with
    | .request =>
      (h,some (.newReply h.localMac h.localIp packet.senderHwAddr packet.senderProtoAddr))
    | .reply => (h,none)

def resolve (h : ArpHandler) (ip : Ipv4Addr) (now : ℤ) : Option MacAddress := h.cache.lookup ip now

end ArpHandler

/-- What the network and the clock do to a handler. -/
inductive Event
  | handlePacket (packet : ArpPacket) (now : ℤ)
  | cleanup (now : ℤ)

namespace ArpHandler

def step (h : ArpHandler) : Event → ArpHandler
  | .handlePacket packet now => (h.handlePacket packet now).1
  | .cleanup now => {h with cache := h.cache.cleanup now}

def run (h : ArpHandler) (events : List Event) : ArpHandler := events.foldl step h

variable {h : ArpHandler} {ip : Ipv4Addr} {mac : MacAddress} {added : ℤ} {event : Event}

@[simp] theorem handlePacket_cache (h : ArpHandler) (packet : ArpPacket) (now : ℤ) :
    (h.handlePacket packet now).1.cache =
      h.cache.add packet.senderProtoAddr packet.senderHwAddr false now := by
  unfold handlePacket
  dsimp only
  split_ifs
  · rfl
  · cases packet.operation <;> rfl

/-! ## Static entries -/

/-- The event says that `ip` is at some address. -/
def Claims (ip : Ipv4Addr) : Event → Prop
  | .handlePacket packet _ => packet.senderProtoAddr = ip
  | .cleanup _ => False

instance (ip : Ipv4Addr) : ∀ event, Decidable (Claims ip event)
  | .handlePacket packet _ => inferInstanceAs (Decidable (packet.senderProtoAddr = ip))
  | .cleanup _ => isFalse fun h => h

/-- The entry for `ip`, if there is one, was learned from the network. -/
def Learned (h : ArpHandler) (ip : Ipv4Addr) : Prop :=
  ∀ entry, h.cache.entries ip = some entry → entry.isStatic = false

theorem static_step (hstatic : h.cache.entries ip = some ⟨mac,added,true⟩)
    (hother : ¬ Claims ip event) :
    (h.step event).cache.entries ip = some ⟨mac,added,true⟩ := by
  cases event with
  | handlePacket packet now =>
    have hne : ip ≠ packet.senderProtoAddr := fun heq => hother heq.symm
    simp [step,ArpCache.add,Function.update_of_ne hne,hstatic]
  | cleanup now => simp [step,ArpCache.cleanup,hstatic,ArpCache.fresh]

theorem learned_of_claims (hclaims : Claims ip event) : (h.step event).Learned ip := by
  cases event with
  | handlePacket packet now =>
    intro entry hentry
    rw [step,handlePacket_cache,ArpCache.add,← show packet.senderProtoAddr = ip from hclaims] at hentry
    simp only [Function.update_self,Option.some.injEq] at hentry
    rw [← hentry]
  | cleanup now => exact hclaims.elim

theorem learned_step (hlearned : h.Learned ip) : (h.step event).Learned ip := by
  by_cases hclaims : Claims ip event
  · exact learned_of_claims hclaims
  · cases event with
    | handlePacket packet now =>
      have hne : ip ≠ packet.senderProtoAddr := fun heq => hclaims heq.symm
      intro entry hentry
      rw [step,handlePacket_cache,ArpCache.add] at hentry
      simp only [Function.update_of_ne hne] at hentry
      exact hlearned entry hentry
    | cleanup now =>
      intro entry hentry
      exact hlearned entry (Option.eq_some_of_filter_eq_some hentry)

theorem learned_run {events : List Event} (hlearned : h.Learned ip) :
    (h.run events).Learned ip := by
  induction events generalizing h with
  | nil => exact hlearned
  | cons event events ih => exact ih (learned_step hlearned)

/-- What was learned is not resolved for ever. -/
theorem Learned.expires (hlearned : h.Learned ip) (mac : MacAddress) :
    ∃ now, h.resolve ip now ≠ some mac := by
  cases hentry : h.cache.entries ip with
  | none => exact ⟨0,by simp [resolve,ArpCache.lookup,hentry]⟩
  | some entry =>
    have hdynamic := hlearned entry hentry
    refine ⟨entry.timestamp + h.cache.timeout,?_⟩
    have helapsed : durationSince (entry.timestamp + h.cache.timeout) entry.timestamp =
        some h.cache.timeout := by
      have hdifference : entry.timestamp + h.cache.timeout - entry.timestamp = h.cache.timeout := by
        omega
      rw [durationSince,if_pos (by omega),hdifference,Int.toNat_natCast]
    simp [resolve,ArpCache.lookup,hentry,hdynamic,helapsed]

/-- A static entry keeps resolving to its address, whenever it is asked, exactly when no packet
names its protocol address as the sender's. -/
theorem static_resolve_iff (hstatic : h.cache.entries ip = some ⟨mac,added,true⟩)
    (events : List Event) :
    (∀ now, (h.run events).resolve ip now = some mac) ↔ ∀ event ∈ events, ¬ Claims ip event := by
  induction events generalizing h with
  | nil => simp [run,resolve,ArpCache.lookup,hstatic]
  | cons event events ih =>
    by_cases hclaims : Claims ip event
    · have hlearned : ((h.step event).run events).Learned ip :=
        learned_run (learned_of_claims hclaims)
      obtain ⟨now,hnow⟩ := hlearned.expires mac
      constructor
      · intro hall
        exact absurd (hall now) hnow
      · intro hnone
        exact absurd hclaims (hnone event (by simp))
    · have hrun : h.run (event::events) = (h.step event).run events := rfl
      rw [hrun,ih (static_step hstatic hclaims)]
      simp [hclaims]

/-- A handler with a static entry for its gateway. -/
def withGateway (gateway : Ipv4Addr) (mac : MacAddress) : ArpHandler where
  cache := (ArpCache.new 300).add gateway mac true 0
  localIp := ⟨#v[192,168,1,100]⟩
  localMac := ⟨#v[0x02,0,0,0,0,0x64]⟩

/-- The entry outlives its timeout and the cleanups. -/
theorem static_resolve_iff_otherSender :
    ((withGateway ⟨#v[192,168,1,1]⟩ ⟨#v[0x02,0,0,0,0,0x01]⟩).run
      [.handlePacket (.newReply ⟨#v[0x02,0,0,0,0,0x32]⟩ ⟨#v[192,168,1,50]⟩
        ⟨#v[0x02,0,0,0,0,0x64]⟩ ⟨#v[192,168,1,100]⟩) 5,.cleanup 1000000000000]).resolve
      ⟨#v[192,168,1,1]⟩ 2000000000000 = some ⟨#v[0x02,0,0,0,0,0x01]⟩ := by
  have hstatic : (withGateway ⟨#v[192,168,1,1]⟩ ⟨#v[0x02,0,0,0,0,0x01]⟩).cache.entries
      ⟨#v[192,168,1,1]⟩ = some ⟨⟨#v[0x02,0,0,0,0,0x01]⟩,0,true⟩ := by decide
  exact (static_resolve_iff hstatic _).mpr (by decide) 2000000000000

/-- A spoofed reply for the gateway replaces its static entry. -/
theorem static_resolve_iff_spoofed :
    ¬ ∀ (h : ArpHandler) (ip : Ipv4Addr) (mac : MacAddress) (added now : ℤ) (events : List Event),
      h.cache.entries ip = some ⟨mac,added,true⟩ → (h.run events).resolve ip now = some mac := by
  intro hall
  have hresolve := hall (withGateway ⟨#v[192,168,1,1]⟩ ⟨#v[0x02,0,0,0,0,0x01]⟩) ⟨#v[192,168,1,1]⟩
    ⟨#v[0x02,0,0,0,0,0x01]⟩ 0 6 [.handlePacket (.newReply ⟨#v[0x66,0,0,0,0,0x66]⟩
      ⟨#v[192,168,1,1]⟩ ⟨#v[0x02,0,0,0,0,0x64]⟩ ⟨#v[192,168,1,100]⟩) 5] (by decide)
  revert hresolve
  decide

end ArpHandler
end Arp
end UProtocols
