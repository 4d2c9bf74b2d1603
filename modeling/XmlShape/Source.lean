import XmlShape.Xml.Document

/-! # Sources of documents -/

namespace XmlShape

/-- A document as it comes in: as a tree, as decoded text or as bytes. -/
inductive Source where
  | tree (root : Element)
  | text (s : String)
  | bytes (data : ByteArray)

def Source.read (decoders : Xml.Decoders) : Source → Except Xml.ReadError Element
  | tree root => .ok root
  | text s => Xml.readText s
  | bytes data => Xml.readBytes decoders data

end XmlShape
