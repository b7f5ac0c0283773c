namespace Workflow

abbrev Octets := List UInt8

namespace Octets

def ofText (text : String) : Octets :=
  text.toUTF8.data.toList

/-- The text of octets; `none` if they are not UTF-8. -/
def text? (octets : Octets) : Option String :=
  String.fromUTF8? ⟨octets.toArray⟩

end Octets

end Workflow
