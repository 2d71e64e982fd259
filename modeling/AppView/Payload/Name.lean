import AppView.Framework.IntObject
import AppView.Framework.Pattern
import AppView.Types

/-!
# Names of payload files

`doPayload` writes what was sent and received on a connection to files named by the process,
the two ends of the connection and the direction.
-/

namespace AppView.Payload

open AppView.Framework

/-! ## Address texts -/

def snprintf (size : ℕ) (text : List Char) : List Char := text.take (size - 1)

def joined (sep : Char) : List (List Char) → List Char
  | [] => []
  | [x] => x
  | x :: xs => x ++ sep :: joined sep xs

def dotted (a : List ℕ) : List Char := joined '.' (a.map (Nat.toDigits 10))

def groups : List ℕ → List ℕ
  | hi :: lo :: a => (256 * hi + lo) :: groups a
  | _ => []

def mappedStart : List ℕ := List.replicate 10 0 ++ [255, 255]

def fullText (a : List ℕ) : List Char :=
  if a.take 12 = mappedStart then
    joined ':' ((groups (a.take 12)).map (Nat.toDigits 16) ++ [dotted (a.drop 12)])
  else joined ':' ((groups a).map (Nat.toDigits 16))

def longestZeros (buf : List Char) : ℕ × ℕ :=
  (List.range buf.length).foldl (fun r i =>
    if i ≠ 0 ∧ buf.getD i ' ' ≠ ':' then r
    else
      let j := ((buf.drop i).takeWhile fun c => c = ':' ∨ c = '0').length
      if r.2 < j then (i, j) else r) (0, 2)

def shortened (buf : List Char) : List Char :=
  let r := longestZeros buf
  if 3 < r.2 then buf.take r.1 ++ [':', ':'] ++ buf.drop (r.1 + r.2) else buf

def inet6AddrStrLen : ℕ := 46

def inetNtop4 (a : List ℕ) (size : ℕ) : Option (List Char) :=
  if (dotted a).length < size then some (dotted a) else none

def inetNtop6 (a : List ℕ) (size : ℕ) : Option (List Char) :=
  let buf := shortened (snprintf 100 (fullText a))
  if buf.length < size then some buf else none

def bytesAt (conn : SockaddrStorage) (start count : ℕ) : List ℕ :=
  (List.range count).map fun i => (conn.data.getD (start + i) 0).toNat

def portOf (conn : SockaddrStorage) : ℕ :=
  256 * (conn.data.getD 0 0).toNat + (conn.data.getD 1 0).toNat

def portLen : ℕ := 20

def getConn (conn : SockaddrStorage) : Option (List Char × List Char) :=
  if conn.ssFamily = afInet then
    (inetNtop4 (bytesAt conn 2 4) inet6AddrStrLen).map fun addr =>
      (addr, snprintf portLen (decimal (portOf conn)))
  else if conn.ssFamily = afInet6 then
    -- four bytes of flow information stand before the address
    (inetNtop6 (bytesAt conn 6 16) inet6AddrStrLen).map fun addr =>
      (addr, snprintf portLen (decimal (portOf conn)))
  else none

/-! ## The name -/

def srcStr : MetricT → List Char
  | .nettx => "nettx".toList
  | .tlstx => "tlstx".toList
  | .netrx => "netrx".toList
  | .tlsrx => "tlsrx".toList
  | _ => "none".toList

structure Net where
  active : Bool
  localConn : SockaddrStorage
  remoteConn : SockaddrStorage
  lnode : UInt64
  rnode : UInt64

def nodeText (node : UInt64) : List Char :=
  decimal (if node.toNat < 2 ^ 63 then node.toNat else node.toNat - 2 ^ 64)

def endText (src : MetricT) (conn : SockaddrStorage) (node : UInt64) : List Char × List Char :=
  match getConn conn with
  | some texts => texts
  | none =>
    if conn.ssFamily = afUnix then ("af_unix".toList, snprintf portLen (nodeText node))
    else (srcStr src, ['0'])

def localText (src : MetricT) (net : Net) : List Char × List Char :=
  if net.active then endText src net.localConn net.lnode else (srcStr src, ['0'])

def remoteText (src : MetricT) (net : Net) : List Char × List Char :=
  if net.active then endText src net.remoteConn net.rnode else (srcStr src, ['0'])

def nameOf (pid : ℤ) (r l : List Char × List Char) (ext : List Char) : List Char :=
  decimal pid ++ '_' :: (r.1 ++ ':' :: (r.2 ++ '_' :: (l.1 ++ ':' :: (l.2 ++ '.' :: ext))))

def payloadName (pid : Int32) (src : MetricT) (net : Net) : List Char :=
  match src with
  | .nettx | .tlstx =>
    nameOf pid.toInt (remoteText src net) (localText src net) "out".toList
  | .netrx | .tlsrx =>
    nameOf pid.toInt (remoteText src net) (localText src net) "in".toList
  | _ => decimal pid.toInt ++ ".na".toList

def pathMax : ℕ := 4096

def payloadPath (payDir : List Char) (pid : Int32) (src : MetricT) (net : Net) : List Char :=
  snprintf pathMax (payDir ++ '/' :: payloadName pid src net)

/-! ## Reading a name -/

def filepathBase (path : List Char) : List Char :=
  if path = [] then ['.']
  else
    let last := (path.reverse.dropWhile (· = '/')).takeWhile (· ≠ '/')
    if last = [] then ['/'] else last.reverse

def isAddr (c : Char) : Bool := c.isDigit || c = '.' || c = ':' || ('a' ≤ c && c ≤ 'f')

def words : List (List Char) :=
  ["af_unix".toList, "netrx".toList, "nettx".toList, "tlsrx".toList, "tlstx".toList]

def addrPattern : Pattern Char := .group (.alt (.run isAddr) (.anyWord words))

def numPattern : Pattern Char := .group (.run Char.isDigit)

def flowPattern : Pattern Char :=
  .seqAll [numPattern, .word ['_'], addrPattern, .word [':'], numPattern, .word ['_'],
    addrPattern, .word [':'], numPattern, .word ['.'],
    .group (.alt (.word "in".toList) (.word "out".toList))]

def inRange (z : ℤ) : Option ℤ :=
  if -9223372036854775808 ≤ z ∧ z ≤ 9223372036854775807 then some z else none

def atoi (s : List Char) : Option ℤ :=
  let digits := fun ds => match readNat ds with
    | some (n, []) => some (n : ℤ)
    | _ => none
  match s with
  | '-' :: ds => (digits ds).bind fun z => inRange (-z)
  | '+' :: ds => (digits ds).bind inRange
  | ds => (digits ds).bind inRange

structure Flow where
  pid : ℤ
  peerIP : List Char
  peerPort : ℤ
  hostIP : List Char
  hostPort : ℤ
  inFile : List Char
  outFile : List Char
  deriving DecidableEq, Repr

inductive FlowError where
  | badName (filename : List Char)
  | badNumber (text : List Char)
  deriving DecidableEq, Repr

def readNumber (s : List Char) : Except FlowError ℤ :=
  match atoi s with
  | some z => .ok z
  | none => .error (.badNumber s)

def parseFlowFileName (filename : List Char) : Except FlowError Flow :=
  match flowPattern.search filename with
  | some [pid, peerIP, peerPort, hostIP, hostPort, ext] => do
    let pid ← readNumber pid
    let hostPort ← readNumber hostPort
    let peerPort ← readNumber peerPort
    let (inFile, outFile) :=
      if ext = "in".toList then (filename, []) else ([], filename)
    return { pid, peerIP, peerPort, hostIP, hostPort, inFile, outFile }
  | _ => .error (.badName filename)

end AppView.Payload
