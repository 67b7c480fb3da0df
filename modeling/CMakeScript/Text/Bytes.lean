import CMakeScript.Text.Basic
/-! The UTF-8 bytes of a text, and cuts of a text at byte offsets. A cut inside of a character gives
nothing. -/
namespace CMakeScript.Text

def bytes (cs : List Char) : List UInt8 := cs.flatMap String.utf8EncodeChar

def splitBytes? : Nat → List Char → Option (List Char × List Char)
  | 0, cs => some ([], cs)
  | _ + 1, [] => none
  | n + 1, c :: cs =>
    if c.utf8Size ≤ n + 1 then
      (splitBytes? (n + 1 - c.utf8Size) cs).map (Prod.map (c :: ·) id)
    else none

def slice? (cs : List Char) (first stop : Nat) : Option (List Char) :=
  if first ≤ stop then do
    let (_, rest) ← splitBytes? first cs
    let (part, _) ← splitBytes? (stop - first) rest
    return part
  else none

@[simp] theorem byteLengthAppend (front back : List Char) :
    byteLength (front ++ back) = byteLength front + byteLength back := by
  induction front with
  | nil => simp [byteLength]
  | cons c front ih => simp [byteLength, ih, Nat.add_assoc]

@[simp] theorem bytesLength (cs : List Char) : (bytes cs).length = byteLength cs := by
  induction cs with
  | nil => rfl
  | cons c cs ih =>
    rw [bytes] at ih
    simp [bytes, byteLength, ih]

@[simp] theorem bytesAppend (front back : List Char) :
    bytes (front ++ back) = bytes front ++ bytes back :=
  List.flatMap_append

@[simp] theorem splitBytesAppend (front back : List Char) :
    splitBytes? (byteLength front) (front ++ back) = some (front, back) := by
  induction front with
  | nil => cases back <;> rfl
  | cons c front ih =>
    obtain ⟨n, more⟩ := Nat.exists_eq_add_one_of_ne_zero (Nat.ne_of_gt c.utf8Size_pos)
    have size : byteLength (c :: front) = n + byteLength front + 1 := by
      rw [byteLength]
      omega
    rw [size, List.cons_append, splitBytes?, if_pos (by omega)]
    have rest : n + byteLength front + 1 - c.utf8Size = byteLength front := by omega
    rw [rest, ih]
    rfl

@[simp] theorem sliceMiddle (front part back : List Char) :
    slice? (front ++ (part ++ back)) (byteLength front) (byteLength front + byteLength part) =
      some part := by
  simp [slice?]

theorem byteCode (b : UInt8) : (Char.ofUInt8 b).val.toNat = b.toNat :=
  UInt8.toNat_toUInt32 b

theorem asciiBytes {c : Char} (ascii : isAscii c = true) :
    ∃ b, String.utf8EncodeChar c = [b] ∧ Char.ofUInt8 b = c := by
  have small : c.val.toNat < 128 := of_decide_eq_true ascii
  refine ⟨.ofNat c.val.toNat, if_pos (Nat.le_of_lt_succ small), ?_⟩
  refine Char.ext (UInt32.toNat_inj.mp ?_)
  rw [byteCode, UInt8.toNat_ofNat']
  omega

theorem asciiSize {c : Char} (ascii : isAscii c = true) : c.utf8Size = 1 := by
  obtain ⟨b, encoded, -⟩ := asciiBytes ascii
  rw [← String.length_utf8EncodeChar, encoded]
  rfl

theorem otherBytes {c : Char} (other : isAscii c = false) :
    ∀ b ∈ String.utf8EncodeChar c, isAscii (Char.ofUInt8 b) = false := by
  have large : ¬c.val.toNat < 128 := of_decide_eq_false other
  have high (n : Nat) (more : 128 ≤ n) (byte : n < 256) :
      isAscii (Char.ofUInt8 (UInt8.ofNat n)) = false := by
    have kept : (Char.ofUInt8 (UInt8.ofNat n)).val.toNat = n := by
      rw [byteCode, UInt8.toNat_ofNat']
      omega
    refine decide_eq_false ?_
    rw [Char.toNat, kept]
    omega
  have single : ¬c.val.toNat ≤ 0x7f := by omega
  intro b member
  unfold String.utf8EncodeChar at member
  simp only [single, if_false] at member
  split at member
  · simp only [List.mem_cons, List.not_mem_nil, or_false] at member
    rcases member with rfl | rfl <;> exact high _ (by omega) (by omega)
  · split at member
    · simp only [List.mem_cons, List.not_mem_nil, or_false] at member
      rcases member with rfl | rfl | rfl <;> exact high _ (by omega) (by omega)
    · simp only [List.mem_cons, List.not_mem_nil, or_false] at member
      rcases member with rfl | rfl | rfl | rfl <;> exact high _ (by omega) (by omega)

end CMakeScript.Text
