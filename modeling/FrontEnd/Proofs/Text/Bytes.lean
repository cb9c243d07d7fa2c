import FrontEnd.Text.Cursor
import Mathlib.Data.List.Induction

/-!
# Bytes of a text

Offsets count the bytes of a text. A place is as many bytes into a text as the text in front of it
is long; what stands at such an offset, in front of it or behind it can be found by its bytes.
-/

namespace FrontEnd

theorem utf8ByteSize_ofList_cons (c : Char) (cs : List Char) :
    (String.ofList (c :: cs)).utf8ByteSize =
      c.utf8Size + (String.ofList cs).utf8ByteSize := by
  have hcons : String.ofList (c :: cs) = String.singleton c ++ String.ofList cs := by
    rw [← List.singleton_append, String.ofList_append]
    rfl
  rw [hcons, String.utf8ByteSize_append, String.utf8ByteSize_singleton]

theorem utf8ByteSize_ofList_concat (cs : List Char) (c : Char) :
    (String.ofList (cs ++ [c])).utf8ByteSize =
      (String.ofList cs).utf8ByteSize + c.utf8Size := by
  rw [String.ofList_append, String.utf8ByteSize_append, utf8ByteSize_ofList_cons]
  rfl

/-- The offset of a place moves by the bytes of the text that it is moved over. -/
theorem Place.afterAll_offset (p : Place) (cs : List Char) :
    (p.afterAll cs).offset = p.offset + (String.ofList cs).utf8ByteSize := by
  induction cs generalizing p with
  | nil => rfl
  | cons c cs ih =>
      rw [afterAll_cons, ih, after_offset, utf8ByteSize_ofList_cons, Nat.add_assoc]

/-- The offset behind a text is the number of its bytes. -/
theorem Place.start_afterAll_offset (cs : List Char) :
    (start.afterAll cs).offset = (String.ofList cs).utf8ByteSize := by
  rw [afterAll_offset]
  exact Nat.zero_add _

/-! ## The character at an offset -/

/-- The character at an offset, read off the bytes of a text: an ASCII character is its own byte,
and any other one is decoded from the bytes there. -/
def charAtByte? (source : String) (offset : Nat) : Option Char :=
  match source.toByteArray.data[offset]? with
  | none => none
  | some b =>
    if b < 128 then some (Char.ofNat b.toNat) else source.toByteArray.utf8DecodeChar? offset

/-- The first byte of a character beyond ASCII is at least 128, and the only byte of an ASCII
character is its number. -/
theorem eq_ofNat_of_head?_utf8EncodeChar {c : Char} {b : UInt8}
    (h : (String.utf8EncodeChar c).head? = some b) (hb : b < 128) : Char.ofNat b.toNat = c := by
  have hlt : b.toNat < 128 := hb
  have hc : c.val.toNat ≤ 127 := by
    unfold String.utf8EncodeChar at h
    by_contra hc
    simp only [hc, if_false] at h
    split at h
    · simp only [List.head?_cons, Option.some.injEq] at h
      rw [← h, UInt8.toNat_ofNat'] at hlt
      omega
    · split at h
      all_goals
        simp only [List.head?_cons, Option.some.injEq] at h
        rw [← h, UInt8.toNat_ofNat'] at hlt
        omega
  simp only [String.utf8EncodeChar, hc, if_true, List.head?_cons, Option.some.injEq] at h
  rw [← h, UInt8.toNat_ofNat', Nat.mod_eq_of_lt (by omega)]
  exact Char.ofNat_toNat c

/-- The bytes of a text start with those of its first character. -/
theorem exists_byte_utf8Encode (c : Char) (cs : List Char) :
    ∃ b, (c :: cs).utf8Encode.data[0]? = some b ∧ (String.utf8EncodeChar c).head? = some b := by
  obtain ⟨b, bs, hb⟩ := List.exists_cons_of_ne_nil (String.utf8EncodeChar_ne_nil (c := c))
  refine ⟨b, ?_, by rw [hb, List.head?_cons]⟩
  rw [List.utf8Encode_cons, List.utf8Encode_singleton, hb, ByteArray.data_append,
    List.data_toByteArray, Array.getElem?_append_left (by simp)]
  rfl

/-- At the offset behind a text, the bytes spell the first character of the text behind it. -/
theorem charAtByte?_append (front rest : String) :
    charAtByte? (front ++ rest) front.utf8ByteSize = rest.toList.head? := by
  have hsize : front.toByteArray.data.size = front.utf8ByteSize := rfl
  have hbyte : (front ++ rest).toByteArray.data[front.utf8ByteSize]? =
      rest.toByteArray.data[0]? := by
    rw [String.toByteArray_append, ByteArray.data_append,
      Array.getElem?_append_right (Nat.le_of_eq hsize), hsize, Nat.sub_self]
  have hdecode : (front ++ rest).toByteArray.utf8DecodeChar? front.utf8ByteSize =
      rest.toByteArray.utf8DecodeChar? 0 := by
    rw [ByteArray.utf8DecodeChar?_eq_utf8DecodeChar?_extract, String.toByteArray_append,
      ByteArray.extract_append_eq_right hsize.symm ByteArray.size_append]
  rw [charAtByte?, hdecode, hbyte, ← String.utf8Encode_toList]
  cases rest.toList with
  | nil => rfl
  | cons c cs =>
      obtain ⟨b, hb, hc⟩ := exists_byte_utf8Encode c cs
      rw [hb, List.utf8DecodeChar?_utf8Encode_cons, List.head?_cons]
      by_cases ascii : b < 128
      · simp only [ascii, if_true, eq_ofNat_of_head?_utf8EncodeChar hc ascii]
      · simp only [ascii, if_false]

/-! ## Cuts at an offset -/

/-- A text is cut in two at the offset behind its first part. -/
theorem Cursor.splitAtByte_append (front rest passed : List Char) :
    splitAtByte (String.ofList front).utf8ByteSize passed (front ++ rest) =
      (front.reverse ++ passed, rest) := by
  induction front generalizing passed with
  | nil => rw [String.ofList_nil, String.utf8ByteSize_empty, splitAtByte]; rfl
  | cons c front ih =>
      have hpos := c.utf8Size_pos
      obtain ⟨n, hn⟩ := Nat.exists_eq_succ_of_ne_zero
        (n := (String.ofList (c :: front)).utf8ByteSize)
        (by rw [utf8ByteSize_ofList_cons]; omega)
      have hrest : n + 1 - c.utf8Size = (String.ofList front).utf8ByteSize := by
        rw [utf8ByteSize_ofList_cons] at hn
        omega
      rw [hn, List.cons_append, splitAtByte, hrest, ih, List.reverse_cons, List.append_assoc]
      rfl

/-- As many bytes as a text is long are the bytes of that text, if it was passed last. -/
theorem Cursor.lastBytes?_append (text before after : List Char) :
    lastBytes? (String.ofList text).utf8ByteSize (text.reverse ++ before) after =
      some (text ++ after) := by
  induction text using List.reverseRecOn generalizing after with
  | nil => rw [String.ofList_nil, String.utf8ByteSize_empty, lastBytes?]; rfl
  | append_singleton text c ih =>
      have hpos := c.utf8Size_pos
      obtain ⟨n, hn⟩ := Nat.exists_eq_succ_of_ne_zero
        (n := (String.ofList (text ++ [c])).utf8ByteSize)
        (by rw [utf8ByteSize_ofList_concat]; omega)
      rw [utf8ByteSize_ofList_concat] at hn
      have hle : c.utf8Size ≤ n + 1 := by omega
      have hrest : n + 1 - c.utf8Size = (String.ofList text).utf8ByteSize := by omega
      rw [utf8ByteSize_ofList_concat, hn, List.reverse_append, List.reverse_singleton,
        List.singleton_append, List.cons_append, lastBytes?, if_pos hle, hrest, ih,
        List.append_assoc, List.singleton_append]

/-- Of two texts that start the same text, the one with fewer bytes starts the other one. -/
theorem exists_between {before after front rest : String} (h : before ++ after = front ++ rest)
    (hle : before.utf8ByteSize ≤ front.utf8ByteSize) :
    ∃ between : String, front = before ++ between := by
  have hbefore : before.toList <+: (before ++ after).toList := by
    rw [String.toList_append]
    exact List.prefix_append _ _
  have hfront : front.toList <+: (before ++ after).toList := by
    rw [h, String.toList_append]
    exact List.prefix_append _ _
  rcases List.prefix_or_prefix_of_prefix hbefore hfront with ⟨between, hb⟩ | ⟨between, hb⟩
  · refine ⟨.ofList between, ?_⟩
    rw [← String.ofList_toList (s := front), ← hb, String.ofList_append, String.ofList_toList]
  · have heq : before = front ++ .ofList between := by
      rw [← String.ofList_toList (s := before), ← hb, String.ofList_append, String.ofList_toList]
    have hempty : (String.ofList between).utf8ByteSize = 0 := by
      rw [heq, String.utf8ByteSize_append] at hle
      omega
    rw [String.utf8ByteSize_eq_zero_iff.mp hempty, String.append_empty] at heq
    exact ⟨"", by rw [heq, String.append_empty]⟩

end FrontEnd
