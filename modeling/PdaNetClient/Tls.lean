import PdaNetClient.Util

/-!
# `tls.c`: the server name of a ClientHello

Three nested walks over length-prefixed fields. Each `size_t` position only
grows, so a loop is given as many passes as its buffer has bytes. The hostname
buffer is the C string it holds.
-/
namespace PdaNetClient.Tls

set_option autoImplicit false

def tlsHeaderLen : Nat := 5
def tlsHandshakeContentType : UInt8 := 0x16
def tlsHandshakeTypeClientHello : UInt8 := 0x01
def fqdnMax : Nat := 255

/-- `(unsigned char) data[i]` -/
def byteAt (data : Bytes) (i : Nat) : UInt8 := data.getD i 0

/-- `((unsigned char) data[i] << 8) + (unsigned char) data[i + 1]` -/
def be16 (data : Bytes) (i : Nat) : Nat := (byteAt data i).toNat * 256 + (byteAt data (i + 1)).toNat

def serverNameLoop (data hostname : Bytes) : Nat → Nat → Bytes
  | 0, _ => hostname
  | fuel + 1, pos =>
    if pos + 3 < data.length then
      let len := be16 data (pos + 1)
      if pos + 3 + len > data.length then hostname
      else if byteAt data pos = 0 then cString ((data.drop (pos + 3)).take (min len fqdnMax))
      else serverNameLoop data hostname fuel (pos + 3 + len)
    else hostname

/-- The walk starts behind the length of the server name list. -/
def parseServerNameExtension (data hostname : Bytes) : Bytes :=
  serverNameLoop data hostname data.length 2

def extensionsLoop (data hostname : Bytes) : Nat → Nat → Bytes
  | 0, _ => hostname
  | fuel + 1, pos =>
    if pos + 4 ≤ data.length then
      let len := be16 data (pos + 2)
      if byteAt data pos = 0 ∧ byteAt data (pos + 1) = 0 then
        if pos + 4 + len > data.length then hostname
        else parseServerNameExtension ((data.drop (pos + 4)).take len) hostname
      else extensionsLoop data hostname fuel (pos + 4 + len)
    else hostname

def parseExtensions (data hostname : Bytes) : Bytes := extensionsLoop data hostname data.length 0

/-- `tls_version_major < 3` is a comparison of plain `char`. -/
def majorBelow3 (abi : Abi) (major : UInt8) : Bool :=
  if abi.charSigned then decide (major.toBitVec.toInt < 3) else decide (major < 3)

/-- The fields in front of the extensions, once the whole record is there;
`data` is cut to the record. -/
def parseClientHello (major minor : UInt8) (data hostname : Bytes) : Bytes :=
  if tlsHeaderLen + 1 > data.length then hostname
  else if byteAt data tlsHeaderLen ≠ tlsHandshakeTypeClientHello then hostname
  else
    let pos := tlsHeaderLen + 38
    if pos + 1 > data.length then hostname
    else
      let pos := pos + 1 + (byteAt data pos).toNat
      if pos + 2 > data.length then hostname
      else
        let pos := pos + 2 + be16 data pos
        if pos + 1 > data.length then hostname
        else
          let pos := pos + 1 + (byteAt data pos).toNat
          if pos = data.length ∧ major = 3 ∧ minor = 0 then hostname
          else if pos + 2 > data.length then hostname
          else
            let len := be16 data pos
            let pos := pos + 2
            if pos + len > data.length then hostname
            else parseExtensions ((data.drop pos).take len) hostname

def parseTlsHeader (abi : Abi) (data hostname : Bytes) : Bytes :=
  if data.length < tlsHeaderLen then hostname
  else if byteAt data 0 &&& 0x80 ≠ 0 ∧ byteAt data 2 = 1 then hostname
  else if byteAt data 0 ≠ tlsHandshakeContentType then hostname
  else if majorBelow3 abi (byteAt data 1) then hostname
  else
    let len := be16 data 3 + tlsHeaderLen
    if min data.length len < len then hostname
    else parseClientHello (byteAt data 1) (byteAt data 2) (data.take len) hostname

end PdaNetClient.Tls
