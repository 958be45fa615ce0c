import Mathlib.Data.List.Basic
import Mathlib.Tactic.Ring

/-!
# Fixed-width integers as bytes

`leBytes w v` is the `w`-byte little-endian image of `v` modulo `256^w`, and
`ofLeBytes` reads it back. A `ByteOrder` picks the image a machine, or a wire
format, uses.
-/

namespace UProtocols

inductive ByteOrder
  | little | big
  deriving DecidableEq

def leBytes : ℕ → ℕ → List UInt8
  | 0, _ => []
  | w+1, v => UInt8.ofNat v :: leBytes w (v / 256)

def ofLeBytes : List UInt8 → ℕ
  | [] => 0
  | b::bs => b.toNat + 256 * ofLeBytes bs

@[simp] theorem leBytes_length (w v : ℕ) : (leBytes w v).length = w := by
  induction w generalizing v with
  | zero => rfl
  | succ w ih => simp [leBytes,ih]

theorem ofLeBytes_leBytes (w v : ℕ) : ofLeBytes (leBytes w v) = v % 256^w := by
  induction w generalizing v with
  | zero => simp [leBytes,ofLeBytes,Nat.mod_one]
  | succ w ih =>
    have hbyte : (UInt8.ofNat v).toNat = v % 256 := UInt8.toNat_ofNat'
    rw [leBytes,ofLeBytes,ih,hbyte,pow_succ',Nat.mod_mul]

theorem ofLeBytes_lt (bs : List UInt8) : ofLeBytes bs < 256^bs.length := by
  induction bs with
  | nil => simp [ofLeBytes]
  | cons b bs ih =>
    have hb := b.toNat_lt
    rw [ofLeBytes,List.length_cons,pow_succ']
    omega

theorem ofLeBytes_append (as bs : List UInt8) :
    ofLeBytes (as ++ bs) = ofLeBytes as + 256^as.length * ofLeBytes bs := by
  induction as with
  | nil => simp [ofLeBytes]
  | cons a as ih =>
    rw [List.cons_append,ofLeBytes,ofLeBytes,ih,List.length_cons]
    ring

theorem ofLeBytes_inj {as bs : List UInt8} (hlength : as.length = bs.length)
    (h : ofLeBytes as = ofLeBytes bs) : as = bs := by
  induction as generalizing bs with
  | nil => exact (List.length_eq_zero_iff.mp hlength.symm).symm
  | cons a as ih =>
    cases bs with
    | nil => cases hlength
    | cons b bs =>
      have ha := a.toNat_lt
      have hb := b.toNat_lt
      rw [ofLeBytes,ofLeBytes] at h
      have hfirst : a = b := UInt8.toNat_inj.mp (by omega)
      rw [hfirst,ih (Nat.succ.inj hlength) (by omega)]

theorem leBytes_ofLeBytes (bs : List UInt8) : leBytes bs.length (ofLeBytes bs) = bs := by
  induction bs with
  | nil => rfl
  | cons b bs ih =>
    have hb := b.toNat_lt
    have hdiv : (b.toNat + 256 * ofLeBytes bs) / 256 = ofLeBytes bs := by omega
    have hbyte : UInt8.ofNat (b.toNat + 256 * ofLeBytes bs) = b := by
      rw [← UInt8.toNat_inj,UInt8.toNat_ofNat']
      omega
    rw [List.length_cons,ofLeBytes,leBytes,hdiv,ih,hbyte]

/-- Byte `i` of the image is the value shifted right by `i` bytes. -/
theorem leBytes_eq_map (w v : ℕ) :
    leBytes w v = (List.range w).map fun i => UInt8.ofNat (v >>> (i * 8)) := by
  induction w generalizing v with
  | zero => rfl
  | succ w ih =>
    rw [leBytes,ih,List.range_succ_eq_map,List.map_cons,List.map_map]
    congr 1
    apply List.map_congr_left
    intro i _
    show UInt8.ofNat ((v / 256) >>> (i * 8)) = UInt8.ofNat (v >>> ((i + 1) * 8))
    rw [show v / 256 = v >>> 8 from (Nat.shiftRight_eq_div_pow v 8).symm,← Nat.shiftRight_add]
    congr 2
    omega

namespace ByteOrder

/-- The `w`-byte image of `v` in this order. -/
def bytes : ByteOrder → ℕ → ℕ → List UInt8
  | .little, w, v => leBytes w v
  | .big, w, v => (leBytes w v).reverse

/-- The number that a byte string denotes in this order. -/
def value : ByteOrder → List UInt8 → ℕ
  | .little, bs => ofLeBytes bs
  | .big, bs => ofLeBytes bs.reverse

@[simp] theorem bytes_length (o : ByteOrder) (w v : ℕ) : (o.bytes w v).length = w := by
  cases o <;> simp [bytes]

theorem value_bytes (o : ByteOrder) (w v : ℕ) : o.value (o.bytes w v) = v % 256^w := by
  cases o <;> simp [value,bytes,ofLeBytes_leBytes]

theorem value_bytes_of_lt (o : ByteOrder) {w v : ℕ} (h : v < 256^w) :
    o.value (o.bytes w v) = v := by
  rw [value_bytes,Nat.mod_eq_of_lt h]

theorem bytes_value (o : ByteOrder) {w : ℕ} {bs : List UInt8} (h : bs.length = w) :
    o.bytes w (o.value bs) = bs := by
  subst h
  cases o with
  | little => exact leBytes_ofLeBytes bs
  | big =>
    rw [bytes,value,← List.length_reverse,leBytes_ofLeBytes,List.reverse_reverse]

theorem value_lt (o : ByteOrder) (bs : List UInt8) : o.value bs < 256^bs.length := by
  cases o with
  | little => exact ofLeBytes_lt bs
  | big =>
    rw [value,← List.length_reverse]
    exact ofLeBytes_lt bs.reverse

theorem big_value_cons (b : UInt8) (bs : List UInt8) :
    big.value (b :: bs) = b.toNat * 256^bs.length + big.value bs := by
  rw [value,value,List.reverse_cons,ofLeBytes_append,List.length_reverse,ofLeBytes,ofLeBytes]
  ring

end ByteOrder

/-! ## Numbers read byte by byte, the high byte first -/

theorem shift_or (w : ℕ) (b : UInt8) : w <<< 8 ||| b.toNat = w * 256 + b.toNat := by
  rw [← Nat.shiftLeft_add_eq_or_of_lt b.toNat_lt,Nat.shiftLeft_eq]

/-- Shift a byte into a 64-bit word. -/
def shiftIn (word : UInt64) (byte : UInt8) : UInt64 := (word <<< 8) ||| byte.toUInt64

theorem shiftIn_toNat {word : UInt64} (h : word.toNat < 256^7) (byte : UInt8) :
    (shiftIn word byte).toNat = word.toNat * 256 + byte.toNat := by
  have hshift : word.toNat <<< 8 < 2^64 := by
    rw [Nat.shiftLeft_eq]
    omega
  rw [shiftIn,UInt64.toNat_or,UInt64.toNat_shiftLeft,UInt8.toNat_toUInt64]
  change word.toNat <<< 8 % 2^64 ||| byte.toNat = _
  rw [Nat.mod_eq_of_lt hshift,shift_or]

/-- Nothing is shifted out as long as the word has room for all the bytes. -/
theorem foldl_shiftIn_toNat (bytes : List UInt8) (word : UInt64) {w : ℕ}
    (h : word.toNat < 256^w) (hw : w + bytes.length ≤ 8) :
    (bytes.foldl shiftIn word).toNat =
      word.toNat * 256^bytes.length + ByteOrder.big.value bytes := by
  induction bytes generalizing word w with
  | nil => simp [ByteOrder.value,ofLeBytes]
  | cons byte bytes ih =>
    have hb := byte.toNat_lt
    rw [List.length_cons] at hw
    have h7 : word.toNat < 256^7 := h.trans_le (Nat.pow_le_pow_right (by decide) (by omega))
    have hstep := shiftIn_toNat h7 byte
    have hnext : (shiftIn word byte).toNat < 256^(w + 1) := by
      rw [hstep,pow_succ]
      omega
    rw [List.foldl_cons,ih _ hnext (by omega),hstep,ByteOrder.big_value_cons,List.length_cons]
    ring

/-! ## Numbers of 16 bits, the high byte first -/

def fromBeBytes (high low : UInt8) : UInt16 := UInt16.ofNat (ByteOrder.big.value [high,low])

def toBeBytes (v : UInt16) : List UInt8 := [UInt8.ofNat (v.toNat / 256),v.toUInt8]

theorem fromBeBytes_toNat (high low : UInt8) :
    (fromBeBytes high low).toNat = high.toNat * 256 + low.toNat := by
  have hhigh := high.toNat_lt
  have hlow := low.toNat_lt
  simp [fromBeBytes,ByteOrder.value,ofLeBytes]
  omega

theorem toBeBytes_fromBeBytes (high low : UInt8) :
    toBeBytes (fromBeBytes high low) = [high,low] := by
  have hhigh := high.toNat_lt
  have hlow := low.toNat_lt
  have hdiv : (high.toNat * 256 + low.toNat) / 256 = high.toNat := by omega
  simp [toBeBytes,← UInt8.toNat_inj,fromBeBytes_toNat,hdiv]

theorem fromBeBytes_toBeBytes (v : UInt16) :
    fromBeBytes (UInt8.ofNat (v.toNat / 256)) v.toUInt8 = v := by
  have hv := v.toNat_lt
  rw [← UInt16.toNat_inj,fromBeBytes_toNat,UInt8.toNat_ofNat',UInt16.toNat_toUInt8]
  omega

end UProtocols
