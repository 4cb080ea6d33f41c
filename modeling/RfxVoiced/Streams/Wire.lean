import RfxVoiced.Lib.Utf8
import RfxVoiced.Streams.Frames

/-!
# Frames, as they are read

The kind of a frame is its first byte. A route has four bytes, the most significant first, so that a
frequency keeps the bit that marks it. Samples have two bytes, the least significant first, and lie
behind six bytes: an even number, since a reader looks at them two bytes at a time. The rest of
other frames is text.

## Main definitions

* `Frame.read` — the frame that bytes are, by what is written down of the format

## Main results

* `leSamples_leBytes` — samples are read back
* `toList_toUTF8` — the bytes of a text are those of its characters
* `read_bytes` — every frame is read back as what it was
-/

namespace RfxVoiced

/-- The frame that some bytes are. -/
def Frame.read : List UInt8 → Option Frame
  | [0, a, b, c, d] => some (.hello (ofBeBytes a b c d))
  | 1 :: _ :: a :: b :: c :: d :: rest => some (.audio (ofBeBytes a b c d) (leSamples rest))
  | 2 :: keyed :: a :: b :: c :: d :: rest =>
    some (.call (ofBeBytes a b c d) (keyed = 1) (String.ofList (Utf8.lossy rest)))
  | 3 :: _ :: a :: b :: c :: d :: rest =>
    some (.deny (ofBeBytes a b c d) (String.ofList (Utf8.lossy rest)))
  | _ => none

/-! ### Samples -/

/-- The two bytes of a sample are its halves. -/
theorem leSample_leBytes (s : Int16) :
    (s.toUInt16.toUInt8.toUInt16 ||| (s.toUInt16 >>> 8).toUInt8.toUInt16 <<< 8).toInt16 = s := by
  have hhalves : ∀ n : UInt16,
      n.toUInt8.toUInt16 ||| (n >>> 8).toUInt8.toUInt16 <<< 8 = n := by
    intro n
    have hn : n.toNat < 2 ^ 16 := n.toNat_lt
    apply UInt16.toNat_inj.mp
    rw [UInt16.toNat_or, UInt16.toNat_shiftLeft, UInt8.toNat_toUInt16, UInt8.toNat_toUInt16,
      UInt16.toNat_toUInt8, UInt16.toNat_toUInt8, UInt16.toNat_shiftRight, Nat.or_comm]
    simp only [UInt16.reduceToNat, Nat.reduceMod, Nat.shiftRight_eq_div_pow, Nat.shiftLeft_eq]
    have hhigh : n.toNat / 2 ^ 8 % 2 ^ 8 * 2 ^ 8 % 2 ^ 16 = 2 ^ 8 * (n.toNat / 2 ^ 8) := by omega
    rw [hhigh, ← Nat.two_pow_add_eq_or_of_lt (Nat.mod_lt _ (by decide))]
    omega
  rw [hhalves]
  rfl

/-- Samples are read back. -/
theorem leSamples_leBytes (pcm : List Int16) : leSamples (pcm.flatMap leBytes) = pcm := by
  induction pcm with
  | nil => rfl
  | cons s pcm ih =>
    change _ :: leSamples (pcm.flatMap leBytes) = s :: pcm
    rw [leSample_leBytes, ih]

/-! ### Text -/

theorem toList_loop (bytes : ByteArray) (i : ℕ) (read : List UInt8) :
    ByteArray.toList.loop bytes i read = read.reverse ++ bytes.data.toList.drop i := by
  -- On how many bytes are left.
  induction hleft : bytes.size - i generalizing i read with
  | zero =>
    have hend : ¬ i < bytes.size := by omega
    have hdrop : bytes.data.toList.drop i = [] := List.drop_eq_nil_of_le (not_lt.mp hend)
    rw [ByteArray.toList.loop, if_neg hend, hdrop, List.append_nil]
  | succ left ih =>
    have hi : i < bytes.size := by omega
    have hlength : i < bytes.data.toList.length := hi
    have hbyte : bytes.get! i = bytes.data.toList[i] := getElem!_pos bytes.data i hi
    rw [ByteArray.toList.loop, if_pos hi, ih (i + 1) _ (by omega), hbyte, List.reverse_cons,
      List.append_assoc, List.drop_eq_getElem_cons hlength]
    rfl

/-- The bytes of a text are those of its characters. -/
theorem toList_toUTF8 (s : String) :
    s.toUTF8.toList = s.toList.flatMap String.utf8EncodeChar := by
  rw [ByteArray.toList, toList_loop, List.reverse_nil, List.nil_append, List.drop_zero,
    String.toUTF8_eq_toByteArray, ← String.utf8Encode_toList]
  exact List.toList_data_toByteArray

theorem read_text (s : String) : String.ofList (Utf8.lossy s.toUTF8.toList) = s := by
  rw [toList_toUTF8, Utf8.lossy_encode, String.ofList_toList]

/-! ### Frames -/

/-- **Every frame is read back as what it was**, whatever the route, the samples and the text. -/
theorem read_bytes (frame : Frame) : Frame.read frame.bytes = some frame := by
  cases frame with
  | hello rate => exact congrArg (fun n => some (Frame.hello n)) (ofBeBytes_beBytes rate)
  | audio tg pcm =>
    change some (Frame.audio (ofBeBytes _ _ _ _) (leSamples (pcm.flatMap leBytes))) = _
    rw [ofBeBytes_beBytes, leSamples_leBytes]
  | call tg keyed talker =>
    change some (Frame.call (ofBeBytes _ _ _ _) (decide ((if keyed then 1 else 0 : UInt8) = 1))
      (String.ofList (Utf8.lossy talker.toUTF8.toList))) = _
    rw [ofBeBytes_beBytes, read_text]
    cases keyed <;> rfl
  | deny tg reason =>
    change some (Frame.deny (ofBeBytes _ _ _ _)
      (String.ofList (Utf8.lossy reason.toUTF8.toList))) = _
    rw [ofBeBytes_beBytes, read_text]

end RfxVoiced
