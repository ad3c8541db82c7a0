/-!
# Text as octets

Text is carried as octets in UTF-8. `ofOctets?_octets` says that reading back what was written gives
the text again, and `octets_of_ofOctets?` that nothing else reads as that text.
-/

namespace Roster.Text

/-- The octets of a text. -/
def octets (s : String) : List UInt8 :=
  s.toList.flatMap String.utf8EncodeChar

/-- The text of some octets, none if they are not UTF-8. -/
def ofOctets? (bytes : List UInt8) : Option String :=
  String.fromUTF8? bytes.toByteArray

theorem octets_append (s t : String) : octets (s ++ t) = octets s ++ octets t := by
  rw [octets, String.toList_append, List.flatMap_append, octets, octets]

theorem toByteArray_octets (s : String) : (octets s).toByteArray = s.toByteArray := by
  rw [← String.ofList_toList (s := s), String.toByteArray_ofList, octets, String.toList_ofList]
  rfl

@[simp] theorem ofOctets?_octets (s : String) : ofOctets? (octets s) = some s := by
  rw [ofOctets?, toByteArray_octets, String.fromUTF8?, dif_pos s.isValidUTF8]
  rfl

theorem octets_of_ofOctets? {bytes : List UInt8} {s : String} (h : ofOctets? bytes = some s) :
    octets s = bytes := by
  rw [ofOctets?, String.fromUTF8?] at h
  split at h
  · obtain rfl := Option.some.inj h
    have : (octets (String.fromUTF8 bytes.toByteArray ‹_›)).toByteArray = bytes.toByteArray :=
      toByteArray_octets _
    simpa using congrArg (fun b : ByteArray => b.data.toList) this
  · cases h

end Roster.Text
