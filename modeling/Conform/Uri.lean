import Conform.Text.Case
import Conform.Text.Encoding
import Conform.Text.Numeral

/-!
References to resources: splitting into parts, joining with a base, dropping a fragment, and the
decoding of percent escapes. A reference whose authority cannot name a host has no parts.
-/
namespace Conform

/-- The parts of a reference. Parts that are missing are empty. -/
structure Uri where
  scheme : Text
  authority : Text
  path : Text
  /-- What follows a semicolon in the last segment of the path. -/
  parameters : Text
  query : Text
  fragment : Text
deriving DecidableEq

namespace Uri

/-- The schemes whose references may be relative. -/
def relativeSchemes : List Text :=
  ["", "ftp", "http", "gopher", "nntp", "imap", "wais", "file", "https", "shttp", "mms", "prospero",
    "rtsp", "rtsps", "rtspu", "sftp", "svn", "svn+ssh", "ws", "wss"]

/-- The schemes whose references may have an authority. -/
def authoritySchemes : List Text :=
  ["", "ftp", "http", "gopher", "nntp", "telnet", "imap", "wais", "file", "mms", "https", "shttp",
    "snews", "prospero", "rtsp", "rtsps", "rtspu", "rsync", "svn", "svn+ssh", "sftp", "nfs", "git",
    "git+ssh", "ws", "wss"]

/-- The schemes whose paths may have parameters. -/
def parameterSchemes : List Text :=
  ["", "ftp", "hdl", "prospero", "http", "imap", "https", "shttp", "rtsp", "rtsps", "rtspu", "sip",
    "sips", "mms", "sftp", "tel"]

def isSchemeChar (p : Point) : Bool :=
  p.isAscii && (p.char.isAlphanum || p.char == '+' || p.char == '-' || p.char == '.')

/-- The scheme in lower case and what follows its colon, if the text starts with a scheme. -/
def scheme? (t : Text) : Option (Text × Text) :=
  match Text.cut? ':' t with
  | some (p :: name, rest) =>
    if p.isAscii && p.char.isAlpha && name.all isSchemeChar then
      some ((p :: name).map Point.lower, rest)
    else none
  | _ => none

/-- One to four hexadecimal digits. -/
def isHextet (t : Text) : Bool :=
  !t.isEmpty && t.length ≤ 4 && t.all fun p =>
    p.isAscii && (p.char.isDigit || ('a' ≤ p.char && p.char ≤ 'f') || ('A' ≤ p.char && p.char ≤ 'F'))

/-- A decimal number up to 255 without leading zeros. -/
def isOctet (t : Text) : Bool :=
  !t.isEmpty && t.length ≤ 3 && t.all (fun p => p.isAscii && p.char.isDigit)
    && (t.length == 1 || t.head?.map Point.char != some '0')
    && t.foldl (fun n p => n * 10 + (p.val - 48)) 0 ≤ 255

def isAddress4 (t : Text) : Bool :=
  let parts := Text.splitOn '.' t
  parts.length == 4 && parts.all isOctet

/-- The groups of an address: an address of the older form at the end stands for two of them. -/
def groups? (t : Text) : Option (List Text) :=
  let parts := Text.splitOn ':' t
  if parts.length < 3 then none
  else match parts.getLast? with
    | some last =>
      if last.containsChar '.' then
        if isAddress4 last then some (parts.dropLast ++ (["0", "0"] : List Text)) else none
      else some parts
    | none => none

/-- Whether the groups are eight, or fewer with one gap for the rest. -/
def areGroups (parts : List Text) : Bool :=
  let inner := (parts.drop 1).dropLast
  let gaps := inner.countP List.isEmpty
  if 9 < parts.length || 1 < gaps then false
  else if gaps == 0 then parts.length == 8 && parts.all isHextet
  else
    let before := parts.takeWhile (!·.isEmpty)
    let at0 := parts.head?.map List.isEmpty == some true
    let gap := if at0 then 1 else before.length
    let high := if at0 then [] else before
    let low := parts.drop (gap + 1)
    let low := if low.getLast?.map List.isEmpty == some true then low.dropLast else low
    (!at0 || (parts.drop 1).head?.map List.isEmpty == some true)
      && (parts.getLast?.map List.isEmpty != some true || low.isEmpty)
      && high.all isHextet && low.all isHextet && high.length + low.length < 8

/-- An address of eight groups, with an optional zone. -/
def isAddress6 (t : Text) : Bool :=
  let (address, zoneOk) := match Text.cut? '%' t with
    | none => (t, true)
    | some (a, zone) => (a, !zone.isEmpty && !zone.containsChar '%')
  zoneOk && !t.containsChar '/' && match groups? address with
    | some parts => areGroups parts
    | none => false

/-- A host in brackets of a form to be fixed in the future. -/
def isFutureHost (t : Text) : Bool :=
  match Text.cut? '.' t with
  | some (version, rest) =>
    1 < version.length && (version.drop 1).all (fun p => isHextet [p]) && !rest.isEmpty
      && rest.all (·.char != '\n')
  | none => false

/-- The host between brackets, if the authority has brackets. -/
def bracketed (authority : Text) : Text :=
  match Text.cut? '[' authority with
  | some (_, rest) => match Text.cut? ']' rest with
    | some (host, _) => host
    | none => rest
  | none => []

/-- The characters outside ASCII that decompose into marks which separate the parts. -/
def hiddenMarks : List Nat :=
  [0x2047, 0x2048, 0x2049, 0x2100, 0x2101, 0x2105, 0x2106, 0x2A74, 0xFE13, 0xFE16, 0xFE55, 0xFE56,
    0xFE5F, 0xFE6B, 0xFF03, 0xFF0F, 0xFF1A, 0xFF1F, 0xFF20]

def isAuthority (t : Text) : Bool :=
  let opening := t.containsChar '['
  let closing := t.containsChar ']'
  let host := bracketed t
  opening == closing
    && (!opening || (if host.head?.map Point.char == some 'v' then isFutureHost host
      else isAddress6 host))
    && !t.any fun p => hiddenMarks.contains p.val

/-- Cuts the parameters off the last segment of a path. -/
def takeParameters (path : Text) : Text × Text :=
  let (start, last) := match Text.cutLast? '/' path with
    | some (a, b) => (a ++ "/", b)
    | none => ([], path)
  match Text.cut? ';' last with
  | some (a, b) => (start ++ a, b)
  | none => (path, [])

/-- The parts of a reference that follow its scheme. -/
def afterScheme? (scheme t : Text) : Option Uri :=
  let (authority, t) := match t.dropStart? "//" with
    | some rest =>
      let host := rest.takeWhile fun p => p.char != '/' && p.char != '?' && p.char != '#'
      (host, rest.drop host.length)
    | none => ([], t)
  let (t, fragment) := (Text.cut? '#' t).getD (t, [])
  let (path, query) := (Text.cut? '?' t).getD (t, [])
  let (path, parameters) :=
    if parameterSchemes.contains scheme then takeParameters path else (path, [])
  if isAuthority authority then some ⟨scheme, authority, path, parameters, query, fragment⟩ else none

/-- The parts of a reference; without a scheme of its own it has the given one. -/
def parse? (t : Text) (scheme : Text := []) : Option Uri :=
  let t := (t.dropWhile (·.val ≤ 0x20)).filter fun p =>
    p.char != '\t' && p.char != '\r' && p.char != '\n'
  match scheme? t with
  | some (own, rest) => afterScheme? own rest
  | none => afterScheme? scheme t

/-- The reference with the given parts. Marks before empty parts are left out. -/
def format (u : Uri) : Text :=
  let t := u.path ++ (if u.parameters.isEmpty then [] else ";" ++ u.parameters)
  let t :=
    if !u.authority.isEmpty || (!u.scheme.isEmpty && authoritySchemes.contains u.scheme)
        || t.startsWith "//" then
      "//" ++ u.authority ++ (if t.isEmpty || t.startsWith "/" then t else "/" ++ t)
    else t
  let t := if u.scheme.isEmpty then t else u.scheme ++ ":" ++ t
  let t := if u.query.isEmpty then t else t ++ "?" ++ u.query
  if u.fragment.isEmpty then t else t ++ "#" ++ u.fragment

/-- Resolves the segments that stand for this level and the one above. -/
def resolveSegments (segments : List Text) : List Text :=
  let kept : List Text := segments.foldl (fun acc (s : Text) =>
    if s == ".." then acc.dropLast else if s == "." then acc else acc ++ [s]) []
  match segments.getLast? with
  | some last => if last == "." || last == ".." then kept ++ [[]] else kept
  | none => kept

/-- The path of a reference, resolved against the path of a base. -/
def joinPath (base path : Text) : Text :=
  let segments :=
    if path.startsWith "/" then Text.splitOn '/' path
    else
      let start := Text.splitOn '/' base
      let start := match start.getLast? with
        | some [] => start
        | _ => start.dropLast
      let all := start ++ Text.splitOn '/' path
      match all with
      | [] => []
      | [s] => [s]
      | s :: rest => s :: (rest.dropLast.filter (!·.isEmpty) ++ rest.drop (rest.length - 1))
  let joined := Text.join "/" (resolveSegments segments)
  if joined.isEmpty then "/" else joined

/-- The reference `ref` as seen from `base`; none if one of them has no parts. -/
def join? (base ref : Text) : Option Text :=
  if base.isEmpty then some ref
  else if ref.isEmpty then some base
  else do
    let b ← parse? base
    let r ← parse? ref b.scheme
    if r.scheme != b.scheme || !relativeSchemes.contains r.scheme then return ref
    let hosted := authoritySchemes.contains r.scheme
    if hosted && !r.authority.isEmpty then return r.format
    let authority := if hosted then b.authority else r.authority
    if r.path.isEmpty && r.parameters.isEmpty then
      return { r with
        authority, path := b.path, parameters := b.parameters
        query := if r.query.isEmpty then b.query else r.query }.format
    return { r with authority, path := joinPath b.path r.path }.format

/-- The reference without its fragment, and the fragment. -/
def defragment? (t : Text) : Option (Text × Text) :=
  if t.containsChar '#' then (parse? t).map fun u => ({ u with fragment := [] }.format, u.fragment)
  else some (t, [])

/-- The value of two hexadecimal digits. -/
def hexValue? (a b : Point) : Option Nat := do
  if isHextet [a, b] then return (← Text.digitValue? a) * 16 + (← Text.digitValue? b)
  none

/-- The bytes of an ASCII text with each escape of a percent sign and two hexadecimal digits
replaced by its byte. -/
def unescapeBytes : Nat → Text → Bytes
  | 0, _ => []
  | _, [] => []
  | fuel + 1, p :: rest =>
    let escape := if p.char == '%' then
        match rest with
        | a :: b :: more => (hexValue? a b).map fun n => (UInt8.ofNat n, more)
        | _ => none
      else none
    match escape with
    | some (byte, more) => byte :: unescapeBytes fuel more
    | none => UInt8.ofNat p.val :: unescapeBytes fuel rest

/-- Replaces percent escapes. What they spell is read as UTF-8, one run of ASCII at a time. -/
def unescape (t : Text) : Text :=
  if t.containsChar '%' then go t.length t else t
where
  go : Nat → Text → Text
    | 0, t => t
    | _, [] => []
    | fuel + 1, p :: rest =>
      if p.isAscii then
        let run := (p :: rest).takeWhile Point.isAscii
        (unescapeBytes run.length run).textLossy ++ go fuel ((p :: rest).drop run.length)
      else p :: go fuel rest

end Uri
end Conform
