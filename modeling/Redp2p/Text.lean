import Redp2p.Lib.Bytes

/-! The limits of the protocol and the checks on its tokens: identifiers, passwords, session
tokens, punch identifiers and hexadecimal tokens. Every argument is a C string, so it holds no
NUL. -/

namespace Redp2p

open ByteString

def idMax : Nat := 63
def addrMax : Nat := 47
def bufSize : Nat := 4096
def keySz : Nat := 16
def passMax : Nat := 255
def udpPayloadMax : Nat := 1412
def peerCandidatesMax : Nat := 8
def protoTcp : Nat := 1
def protoUdp : Nat := 2
def powMax : Int := 32
def maxPendingCalls : Nat := 32
def pendingCallTtlS : UInt64 := 30
def ctrlSessionMax : Nat := 63

/-- The result codes of the library. -/
inductive Status where
  | ok | error | enet | enoent | etimeout | efull | einval | eproto | eauth | eversion | epunch
  deriving DecidableEq, Repr

/-- `SIZE_MAX` on the 64-bit targets. -/
def sizeMax : Nat := 2 ^ 64 - 1

def isSpace (ch : UInt8) : Bool :=
  ch == 0x20 || ch == 0x09 || ch == 0x0a || ch == 0x0d || ch == 0x0c || ch == 0x0b

/-- The common loop of the token checks: the text is not empty, every character is allowed, and no
index reaches the limit. -/
def isToken (allowed : UInt8 → Bool) (limit : Nat) (text : Bytes) : Bool :=
  !text.isEmpty && text.length ≤ limit && text.all allowed

def isValidId (id : Bytes) : Bool := isToken isAlnum idMax id

def isPassChar (ch : UInt8) : Bool :=
  inRange 'a' 'z' ch || inRange 'A' 'Z' ch || inRange '0' '9' ch || (ascii "._-+=,:@%/").contains ch

def isValidPassToken (pass : Bytes) : Bool := isToken isPassChar passMax pass

def isSessionToken (text : Bytes) : Bool := isToken isAlnum ctrlSessionMax text

def isPunchIdChar (ch : UInt8) : Bool := isAlnum ch || ch == 0x2d

def isPunchId (text : Bytes) : Bool := isToken isPunchIdChar idMax text

def isHexToken (text : Bytes) (len : Nat) : Bool := text.length == len && text.all isHexDigit

/-- `redp2p_trim`: the text between the first and the last byte that are not white space. -/
def trim (text : Bytes) : Bytes :=
  ((text.dropWhile isSpace).reverse.dropWhile isSpace).reverse

theorem isToken_iff {allowed : UInt8 → Bool} {limit : Nat} {text : Bytes} :
    isToken allowed limit text = true ↔
      text ≠ [] ∧ text.length ≤ limit ∧ ∀ b ∈ text, allowed b = true := by
  simp [isToken, List.all_eq_true, and_assoc]

theorem isValidId_iff {id : Bytes} :
    isValidId id = true ↔ id ≠ [] ∧ id.length ≤ 63 ∧ ∀ b ∈ id, isAlnum b = true :=
  isToken_iff

theorem isSessionToken_iff {text : Bytes} :
    isSessionToken text = true ↔ text ≠ [] ∧ text.length ≤ 63 ∧ ∀ b ∈ text, isAlnum b = true :=
  isToken_iff

theorem isHexToken_iff {text : Bytes} {len : Nat} :
    isHexToken text len = true ↔ text.length = len ∧ ∀ b ∈ text, isHexDigit b = true := by
  simp [isHexToken, List.all_eq_true]

theorem isPunchId_of_isValidId {id : Bytes} (h : isValidId id = true) : isPunchId id = true := by
  obtain ⟨hne, hlen, hall⟩ := isValidId_iff.mp h
  exact isToken_iff.mpr ⟨hne, hlen, fun b hb => by simp [isPunchIdChar, hall b hb]⟩

end Redp2p
