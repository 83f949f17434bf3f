import NamedData.Text.Numeral

/-!
# Errors

What can go wrong between a face and the forwarder, and the message that a person reads.
-/

namespace NamedData

/-- Why a fragment of a packet, or a packet with bytes behind it, is refused. -/
inductive FragmentFault where
  /-- Bytes follow the one block that was expected. -/
  | afterBlock (count : Nat)
  /-- Bytes follow the network packet. -/
  | afterPacket (count : Nat)
  | noSequence
  | noFragment
  | indexOutOfRange (index count : UInt64)
  | countTooLarge (count : UInt64)
  /-- A group already has another number of fragments. -/
  | countMismatch (base : UInt64)
deriving DecidableEq, Repr

namespace FragmentFault

def message : FragmentFault → String
  | afterBlock count => s!"trailing {count} bytes after TLV"
  | afterPacket count => s!"trailing {count} bytes after network packet"
  | noSequence => "missing Sequence"
  | noFragment => "missing Fragment"
  | indexOutOfRange index count => s!"FragIndex {index} out of range for FragCount {count}"
  | countTooLarge count => s!"FragCount {count} too large"
  | countMismatch base => s!"FragCount mismatch for base sequence {base}"

end FragmentFault

/-- The causes of failure. -/
inductive Error where
  /-- The operating system refused to read or write. -/
  | io
  /-- A configuration text is not well formed, or a value in it does not fit. -/
  | config
  | nonCanonicalUri (uri : String)
  | unsupportedScheme (scheme : String)
  | truncated (need available : Nat)
  | unexpectedType (expected got : UInt64)
  | unrecognizedCritical (type : UInt64)
  | invalidNumber (length : Nat)
  | invalidName (component : String)
  | packetTooLarge (size max : Nat)
  | mtuTooSmall (mtu overhead : Nat)
  | invalidPitToken (length : Nat)
  | invalidFragment (fault : FragmentFault)
  | invalidThread (thread : Nat)
  | queueFull
  | faceNotFound (id : UInt64)
  | alreadyRegistered (id : UInt64)
  | faceExists (id : UInt64)
  | connectionClosed
deriving DecidableEq, Repr

namespace Error

/-- The text of a type number: hexadecimal behind `0x`. -/
def typeText (type : UInt64) : String :=
  "0x" ++ String.ofList (Numeral.hex type.toNat)

/-- What a person reads. The detail behind `io` and `config` is not part of it. -/
def message : Error → String
  | io => "IO 에러"
  | config => "설정 파일 파싱 실패"
  | nonCanonicalUri uri => s!"정규화되지 않은 URI: {uri}"
  | unsupportedScheme scheme => s!"지원하지 않는 URI 스킴: {scheme}"
  | truncated need available => s!"TLV 데이터 부족: need {need} bytes, have {available}"
  | unexpectedType expected got =>
    s!"유효하지 않은 TLV 타입: expected {typeText expected}, got {typeText got}"
  | unrecognizedCritical type => s!"인식할 수 없는 필수(critical) TLV: {typeText type}"
  | invalidNumber length => s!"유효하지 않은 NNI 길이: {length}"
  | invalidName component => s!"유효하지 않은 이름 컴포넌트: {component}"
  | packetTooLarge size max => s!"패킷 크기 초과: {size} > {max}"
  | mtuTooSmall mtu overhead => s!"MTU 부족: mtu={mtu}, overhead={overhead}"
  | invalidPitToken length => s!"유효하지 않은 PIT 토큰: length={length}"
  | invalidFragment fault => s!"유효하지 않은 단편: {fault.message}"
  | invalidThread thread => s!"유효하지 않은 포워딩 스레드: {thread}"
  | queueFull => "큐 가득 참"
  | faceNotFound id => s!"Face 없음: face_id={id}"
  | alreadyRegistered id => s!"이미 등록된 face: face_id={id}"
  | faceExists id => s!"같은 원격 URI의 face 존재: face_id={id}"
  | connectionClosed => "연결 종료"

end Error

end NamedData
