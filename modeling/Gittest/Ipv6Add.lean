import Gittest.Lib.BigEndian
import Gittest.Text

/-!
# Adding to an IPv6 address

`ipv6_addition` of `ipv6_add.c`, on a machine of either byte order. The loop goes from the lowest
word of the address to the highest and passes on in `n` what is still to be added; the address as a
number is then off by `n` times the weight of the words that are done.
-/

namespace Gittest

/-- How a word lies in memory. -/
inductive ByteOrder where
  | little
  | big
  deriving DecidableEq, Repr

namespace ByteOrder

def word : ByteOrder → UInt8 → UInt8 → UInt8 → UInt8 → UInt32
  | .little, a, b, c, d =>
      UInt32.ofNat (a.toNat + b.toNat * 2 ^ 8 + c.toNat * 2 ^ 16 + d.toNat * 2 ^ 24)
  | .big, a, b, c, d =>
      UInt32.ofNat (a.toNat * 2 ^ 24 + b.toNat * 2 ^ 16 + c.toNat * 2 ^ 8 + d.toNat)

/-- The bytes of a word, by address. -/
def bytes : ByteOrder → UInt32 → List UInt8
  | .little, w =>
      [UInt8.ofNat w.toNat, UInt8.ofNat (w.toNat / 2 ^ 8), UInt8.ofNat (w.toNat / 2 ^ 16),
        UInt8.ofNat (w.toNat / 2 ^ 24)]
  | .big, w =>
      [UInt8.ofNat (w.toNat / 2 ^ 24), UInt8.ofNat (w.toNat / 2 ^ 16),
        UInt8.ofNat (w.toNat / 2 ^ 8), UInt8.ofNat w.toNat]

/-- Network order is big-endian: on a little-endian machine the bytes of the word are swapped. -/
def htonl : ByteOrder → UInt32 → UInt32
  | .little, w =>
      word .big (UInt8.ofNat w.toNat) (UInt8.ofNat (w.toNat / 2 ^ 8))
        (UInt8.ofNat (w.toNat / 2 ^ 16)) (UInt8.ofNat (w.toNat / 2 ^ 24))
  | .big, w => w

def ntohl (order : ByteOrder) (w : UInt32) : UInt32 := order.htonl w

end ByteOrder

/-- `*(p + i)`. -/
def readWord (order : ByteOrder) (ip : List UInt8) (i : Nat) : Except Fault UInt32 :=
  match ip.drop (4 * i) with
  | a :: b :: c :: d :: _ => .ok (order.word a b c d)
  | _ => .error .outOfBounds

/-- `*(p + i) = w`. -/
def writeWord (order : ByteOrder) (ip : List UInt8) (i : Nat) (w : UInt32) :
    Except Fault (List UInt8) :=
  writeChars ip (4 * i) (order.bytes w)

/-- The value of an expression of type `int64_t`. -/
def int64 (z : Int) : Except Fault Int :=
  if -2 ^ 63 ≤ z ∧ z < 2 ^ 63 then .ok z else .error .signedOverflow

/-- `tmp & 0xffffffff`, as a word. -/
def lowWord (tmp : Int) : UInt32 := UInt32.ofNat (tmp % 2 ^ 32).toNat

/-- The loop, with `left` words to go: `i` is `4 - left`, so that `p + 4 - 1 - i` is the word before
the last one done. -/
def ipv6AdditionLoop (order : ByteOrder) : Nat → List UInt8 → Int → Except Fault (List UInt8)
  | 0, ip, _ => return ip
  | left + 1, ip, n => do
      let w ← readWord order ip left
      let tmp ← int64 ((order.htonl w).toNat + n)
      if tmp < 0 then
        let ip ← writeWord order ip left (order.ntohl (lowWord tmp))
        ipv6AdditionLoop order left ip (-1)
      else
        let tmp2 ← int64 (tmp - 0xffffffff)
        if tmp2 > 0 then
          let ip ← writeWord order ip left (order.ntohl (lowWord tmp))
          ipv6AdditionLoop order left ip (toInt (tmp / 2 ^ 32 % 2 ^ 32))
        else
          writeWord order ip left (order.ntohl (lowWord tmp))

def ipv6Addition (order : ByteOrder) (ip : List UInt8) (n : Int32) : Except Fault (List UInt8) :=
  if n = 0 then return ip else ipv6AdditionLoop order 4 ip n.toInt

/-! ### Words -/

section Words

variable {order : ByteOrder}

theorem value_word (a b c d : UInt8) :
    BigEndian.value [a, b, c, d]
      = a.toNat * 2 ^ 24 + b.toNat * 2 ^ 16 + c.toNat * 2 ^ 8 + d.toNat := by
  change Nat.ofDigits 256 [d.toNat, c.toNat, b.toNat, a.toNat] = _
  simp only [Nat.ofDigits_cons, Nat.ofDigits_nil]
  omega

theorem word_big_toNat (a b c d : UInt8) :
    (ByteOrder.big.word a b c d).toNat = BigEndian.value [a, b, c, d] := by
  have ha := a.toNat_lt
  have hb := b.toNat_lt
  have hc := c.toNat_lt
  have hd := d.toNat_lt
  rw [value_word, ByteOrder.word, UInt32.toNat_ofNat']
  omega

theorem word_little (a b c d : UInt8) :
    ByteOrder.little.word a b c d = ByteOrder.big.word d c b a := by
  refine congrArg UInt32.ofNat ?_
  omega

theorem byte_eq {n : Nat} {c : UInt8} (hn : n % 2 ^ 8 = c.toNat) : UInt8.ofNat n = c := by
  apply UInt8.toNat_inj.mp
  rw [UInt8.toNat_ofNat', hn]

theorem bytes_big_word (a b c d : UInt8) :
    ByteOrder.big.bytes (ByteOrder.big.word a b c d) = [a, b, c, d] := by
  have ha := a.toNat_lt
  have hb := b.toNat_lt
  have hc := c.toNat_lt
  have hd := d.toNat_lt
  rw [ByteOrder.bytes, word_big_toNat, value_word]
  rw [byte_eq (c := a) (by omega), byte_eq (c := b) (by omega), byte_eq (c := c) (by omega),
    byte_eq (c := d) (by omega)]

theorem value_bytes_big (w : UInt32) : BigEndian.value (ByteOrder.big.bytes w) = w.toNat := by
  have hw := w.toNat_lt
  rw [ByteOrder.bytes, value_word]
  simp only [UInt8.toNat_ofNat']
  omega

theorem bytes_little (w : UInt32) :
    ByteOrder.little.bytes w = (ByteOrder.big.bytes w).reverse := rfl

/-- The swap, with the word given by its bytes. -/
theorem htonl_big_word (a b c d : UInt8) :
    ByteOrder.little.htonl (ByteOrder.big.word a b c d) = ByteOrder.big.word d c b a := by
  have hbytes := bytes_big_word a b c d
  simp only [ByteOrder.bytes, List.cons.injEq, and_true] at hbytes
  obtain ⟨ha, hb, hc, hd⟩ := hbytes
  rw [ByteOrder.htonl, ha, hb, hc, hd]

theorem exists_word (w : UInt32) : ∃ a b c d, w = ByteOrder.big.word a b c d := by
  have hvalue := (word_big_toNat _ _ _ _).trans (value_bytes_big w)
  exact ⟨_, _, _, _, (UInt32.toNat_inj.mp hvalue).symm⟩

/-- Whichever way a word lies in memory, `htonl` makes it the number that its bytes are. -/
theorem htonl_word (a b c d : UInt8) :
    (order.htonl (order.word a b c d)).toNat = BigEndian.value [a, b, c, d] := by
  cases order with
  | little => rw [word_little, htonl_big_word, word_big_toNat]
  | big => exact word_big_toNat a b c d

theorem value_bytes_ntohl (w : UInt32) :
    BigEndian.value (order.bytes (order.ntohl w)) = w.toNat := by
  cases order with
  | little =>
    obtain ⟨a, b, c, d, rfl⟩ := exists_word w
    rw [ByteOrder.ntohl, htonl_big_word, bytes_little, bytes_big_word, word_big_toNat]
    rfl
  | big => exact value_bytes_big w

theorem bytes_length (w : UInt32) : (order.bytes w).length = 4 := by
  cases order <;> rfl

theorem lowWord_toNat (tmp : Int) : ((lowWord tmp).toNat : Int) = tmp % 2 ^ 32 := by
  rw [lowWord, UInt32.toNat_ofNat']
  omega

end Words

/-! ### The loop -/

section Loop

variable {order : ByteOrder} {left : Nat} {front back : List UInt8} {n : Int}

theorem readWord_append (order : ByteOrder) (back : List UInt8) (hfront : front.length = 4 * left)
    (a b c d : UInt8) :
    readWord order (front ++ [a, b, c, d] ++ back) left = .ok (order.word a b c d) := by
  rw [readWord, List.append_assoc, List.drop_left' hfront]
  rfl

theorem writeWord_append (order : ByteOrder) (back : List UInt8) {limb : List UInt8}
    (hfront : front.length = 4 * left) (hlimb : limb.length = 4) (w : UInt32) :
    writeWord order (front ++ limb ++ back) left w = .ok (front ++ order.bytes w ++ back) := by
  rw [writeWord, ← hfront]
  exact writeChars_append (hlimb.trans (bytes_length w).symm)

/-- What one turn of the loop comes to: the word becomes the remainder of the sum, and if the rest
goes on, it goes on with the quotient. -/
theorem ipv6AdditionLoop_succ (order : ByteOrder) (back : List UInt8)
    (hn : intMin ≤ n ∧ n ≤ intMax) (hfront : front.length = 4 * left) {limb : List UInt8}
    (hlimb : limb.length = 4) :
    ∃ limb', limb'.length = 4
      ∧ (BigEndian.value limb' : Int) = (BigEndian.value limb + n) % 2 ^ 32
      ∧ ipv6AdditionLoop order (left + 1) (front ++ limb ++ back) n
        = if (BigEndian.value limb + n) / 2 ^ 32 = 0 then
            .ok (front ++ limb' ++ back)
          else
            ipv6AdditionLoop order left (front ++ limb' ++ back)
              ((BigEndian.value limb + n) / 2 ^ 32) := by
  obtain ⟨a, b, c, d, rfl⟩ := List.length_eq_four.mp hlimb
  let tmp : Int := BigEndian.value [a, b, c, d] + n
  have hvalue := BigEndian.value_lt [a, b, c, d]
  have htmp : -2 ^ 31 ≤ tmp ∧ tmp < 2 ^ 32 + 2 ^ 31 := by
    simp only [intMin, intMax, List.length_cons, List.length_nil] at hn hvalue
    omega
  refine ⟨order.bytes (order.ntohl (lowWord tmp)), bytes_length _, ?_, ?_⟩
  · rw [value_bytes_ntohl, lowWord_toNat]
  have hread := readWord_append order back hfront a b c d
  have hwrite := writeWord_append order back hfront hlimb
    (order.ntohl (lowWord tmp))
  have hint : int64 tmp = .ok tmp := if_pos (by omega)
  have hint' : int64 (tmp - 0xffffffff) = .ok (tmp - 0xffffffff) := if_pos (by omega)
  rw [ipv6AdditionLoop, hread]
  change (int64 ((order.htonl (order.word a b c d)).toNat + n) >>= _) = _
  rw [htonl_word, hint]
  change (if tmp < 0 then _ else _) = if tmp / 2 ^ 32 = 0 then _ else _
  rcases lt_or_ge tmp 0 with hborrow | hnonneg
  · have hquot : tmp / 2 ^ 32 = -1 := by omega
    rw [if_pos hborrow, hwrite, hquot, if_neg (by decide)]
    rfl
  rw [if_neg (by omega), hint']
  change (if tmp - 0xffffffff > 0 then _ else _) = _
  rcases lt_or_ge 0xffffffff tmp with hcarry | hsmall
  · have hquot : tmp / 2 ^ 32 = 1 := by omega
    rw [if_pos (by omega), hwrite, hquot, if_neg (by decide)]
    rfl
  · have hquot : tmp / 2 ^ 32 = 0 := by omega
    rw [if_neg (by omega), hwrite, hquot, if_pos rfl]

/-- The loop adds `n` to the number that the first `left` words are, and leaves the rest alone. -/
theorem ipv6AdditionLoop_adds (order : ByteOrder) (left : Nat) (back : List UInt8)
    {front : List UInt8} {n : Int}
    (hn : intMin ≤ n ∧ n ≤ intMax) (hfront : front.length = 4 * left) :
    ∃ front', front'.length = front.length
      ∧ (BigEndian.value front' : Int) = (BigEndian.value front + n) % 256 ^ front.length
      ∧ ipv6AdditionLoop order left (front ++ back) n = .ok (front' ++ back) := by
  induction left generalizing front back n with
  | zero =>
    obtain rfl := List.length_eq_zero_iff.mp hfront
    exact ⟨[], rfl, (Int.emod_one _).symm, rfl⟩
  | succ left ih =>
    let high := front.take (4 * left)
    let limb := front.drop (4 * left)
    have hhigh : high.length = 4 * left := by
      rw [List.length_take]
      omega
    have hlimb : limb.length = 4 := by
      rw [List.length_drop]
      omega
    have hsplit : high ++ limb = front := List.take_append_drop _ _
    obtain ⟨limb', hlimb', hlow, hloop⟩ :=
      ipv6AdditionLoop_succ order back hn hhigh hlimb
    have hadd := BigEndian.add_limb (BigEndian.value high) (BigEndian.value limb) n (2 ^ 32)
      (256 ^ high.length) (by positivity) (by positivity)
    have hvalue : (BigEndian.value front : Int)
        = BigEndian.value high * 2 ^ 32 + BigEndian.value limb := by
      rw [← hsplit, BigEndian.value_append, hlimb]
      push_cast
      norm_num
    have hmodulus : (256 : Int) ^ front.length = 256 ^ high.length * 2 ^ 32 := by
      rw [← hsplit, List.length_append, hlimb, pow_add]
      norm_num
    have hjoin : ∀ high' : List UInt8, (BigEndian.value (high' ++ limb') : Int)
        = BigEndian.value high' * 2 ^ 32 + BigEndian.value limb' := by
      intro high'
      rw [BigEndian.value_append, hlimb']
      push_cast
      norm_num
    rw [hvalue, hmodulus, hadd, ← hlow, ← hsplit]
    by_cases hquot : (BigEndian.value limb + n) / 2 ^ 32 = 0
    · -- nothing is left to be added, and the words above stay
      refine ⟨high ++ limb', by rw [List.length_append, List.length_append, hlimb, hlimb'], ?_, ?_⟩
      · have hlt := BigEndian.value_lt high
        rw [hjoin, hquot, add_zero, Int.emod_eq_of_lt (by positivity) (by exact_mod_cast hlt)]
      · rw [hloop, if_pos hquot]
    · have hvaluelt := BigEndian.value_lt limb
      have hcarry : intMin ≤ (BigEndian.value limb + n) / 2 ^ 32
          ∧ (BigEndian.value limb + n) / 2 ^ 32 ≤ intMax := by
        rw [hlimb] at hvaluelt
        simp only [intMin, intMax] at hn ⊢
        omega
      obtain ⟨high', hhigh', hsum, hrest⟩ := ih (limb' ++ back) hcarry hhigh
      refine ⟨high' ++ limb', ?_, ?_, ?_⟩
      · rw [List.length_append, List.length_append, hhigh', hlimb, hlimb']
      · rw [hjoin, hsum]
      · rw [hloop, if_neg hquot, List.append_assoc, hrest, List.append_assoc]

end Loop

/-- The address becomes the sum, as a number of 128 bits. -/
theorem ipv6Addition_exact (order : ByteOrder) (ip : List UInt8) (n : Int32)
    (hip : ip.length = 16) :
    ipv6Addition order ip n
      = .ok (BigEndian.bytes 16 ((BigEndian.value ip + n.toInt) % 2 ^ 128).toNat) := by
  obtain ⟨ip', hlength, hvalue, hrun⟩ : ∃ ip', ip'.length = ip.length
      ∧ (BigEndian.value ip' : Int) = (BigEndian.value ip + n.toInt) % 256 ^ ip.length
      ∧ ipv6Addition order ip n = .ok ip' := by
    by_cases hzero : n = 0
    · refine ⟨ip, rfl, ?_, if_pos hzero⟩
      have hlt := BigEndian.value_lt ip
      rw [hzero, Int32.toInt_zero, add_zero,
        Int.emod_eq_of_lt (by positivity) (by exact_mod_cast hlt)]
    · have hn : intMin ≤ n.toInt ∧ n.toInt ≤ intMax :=
        ⟨Int32.le_toInt n, Int.le_of_lt_add_one n.toInt_lt⟩
      obtain ⟨ip', hlength, hvalue, hloop⟩ :=
        ipv6AdditionLoop_adds order 4 [] hn hip
      refine ⟨ip', hlength, hvalue, ?_⟩
      rw [List.append_nil, List.append_nil] at hloop
      rw [ipv6Addition, if_neg hzero, hloop]
  have hmodulus : (256 : Int) ^ ip.length = 2 ^ 128 := by rw [hip]; norm_num
  rw [hrun, ← hmodulus, ← hvalue, Int.toNat_natCast, ← hip, ← hlength, BigEndian.bytes_value]

theorem ipv6Addition_exact_wraps :
    ipv6Addition .little (List.replicate 16 255) 3
      = .ok (BigEndian.bytes 16
          ((BigEndian.value (List.replicate 16 255) + Int32.toInt 3) % 2 ^ 128).toNat) :=
  ipv6Addition_exact .little (List.replicate 16 255) 3 List.length_replicate

example : ipv6Addition .little (List.replicate 16 0) (-1) = .ok (List.replicate 16 255) := rfl

end Gittest
