import ConicProgram.OrderedMap

namespace ConicProgram

namespace Text

def bytes (s : String) : List UInt8 :=
  s.toUTF8.data.toList

end Text

end ConicProgram
