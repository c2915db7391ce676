import Qdrust.Library.Form

/-! Form bodies on their way out: every field is decoded to a text and encoded
again, so that no separator in a value becomes a new field. -/
namespace Qdrust.Executor
open Library Utf8 Form

/-- Control characters, the separators, the space and the signs of a URL. -/
def formValueEncodeSet (byte : UInt8) : Bool :=
  byte < 0x20 || byte == 0x7F || byte == 0x26 || byte == 0x3D || byte == 0x3F || byte == 0x23 || byte == 0x25 ||
    byte == 0x2B || byte == 0x20

/-- First `+`, then the percent escapes, then UTF-8 with replacements. -/
def formUrldecode (input : List Char) : List Char := lossy (percentDecode (encode (plusToSpace input)))

def parseFormPairs (body : String) : List (String × String) :=
  (formParts body.toList).map fun part =>
    let (name,value) := splitField part
    (String.ofList (formUrldecode name),String.ofList (formUrldecode value))

def encodeFormBody (body : String) : String :=
  let encodeValue := fun value => percentEncode formValueEncodeSet (encode (formUrldecode value))
  String.ofList (joinFields ((formParts body.toList).map fun part =>
    let (name,value) := splitField part
    (encodeValue name,encodeValue value)))

/-- What an encoded value is made of. -/
theorem encodeValue_free (bytes : Bytes) :
    '&' ∉ percentEncode formValueEncodeSet bytes ∧ '=' ∉ percentEncode formValueEncodeSet bytes := by
  constructor
  · exact percentEncode_free (by decide) (fun n bound => (hexDigit_plain n bound).2.2.1) (by decide) bytes
  · exact percentEncode_free (by decide) (fun n bound => (hexDigit_plain n bound).2.2.2) (by decide) bytes

/-- The encoded body has the fields of the body, each as the text it was decoded to. -/
theorem formPairs_encodeFormBody (body : String) :
    formPairs (encodeFormBody body).toList =
      (formPairs body.toList).map fun pair => (encode (lossy pair.1),encode (lossy pair.2)) := by
  unfold encodeFormBody
  rw [String.toList_ofList,formPairs_joinFields,formPairs,List.map_map,List.map_map]
  · apply List.map_congr_left
    intro part member
    change (decodeComponent (percentEncode _ _),decodeComponent (percentEncode _ _)) = _
    rw [decodeComponent_percentEncode (by decide) (by decide),decodeComponent_percentEncode (by decide) (by decide)]
    rfl
  · intro pair member
    obtain ⟨part,_,rfl⟩ := List.mem_map.mp member
    exact ⟨(encodeValue_free _).1,(encodeValue_free _).1,(encodeValue_free _).2⟩

/-- The fields arrive as they were written exactly when every name and every value
is a text. -/
theorem form_bytes_iff (body : String) :
    formPairs (encodeFormBody body).toList = formPairs body.toList ↔
      ∀ pair ∈ formPairs body.toList, Valid pair.1 ∧ Valid pair.2 := by
  rw [formPairs_encodeFormBody]
  conv_lhs => rhs; rw [← List.map_id (formPairs body.toList)]
  rw [List.map_inj_left]
  apply forall_congr'
  intro pair
  apply forall_congr'
  intro _
  rw [id,Prod.ext_iff,encode_lossy_iff,encode_lossy_iff]

/-- The two bytes of a GBK character become two replacement characters. -/
theorem gbk_field_replaced :
    encodeFormBody "name=%C4%E3" = "name=%EF%BF%BD%EF%BF%BD" ∧
      formPairs (encodeFormBody "name=%C4%E3").toList ≠ formPairs "name=%C4%E3".toList := by
  decide

end Qdrust.Executor
