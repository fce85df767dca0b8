import AshA2A.Radix
import AshA2A.Term
import Mathlib.Data.Fin.Basic

/-! Which webhook addresses a push notification may be sent to. -/

namespace AshA2A

/-! ## URLs -/

structure Uri where
  scheme : Option String := none
  userinfo : Option String := none
  host : Option String := none
  port : Option Nat := none
  path : Option String := none
  query : Option String := none
  fragment : Option String := none
  deriving Repr, DecidableEq

namespace Uri

def defaultPort : String → Option Nat
  | "ftp" => some 21
  | "sftp" => some 22
  | "tftp" => some 69
  | "http" => some 80
  | "https" => some 443
  | "ldap" => some 389
  | "ws" => some 80
  | "wss" => some 443
  | _ => none

/-- A path behind an authority is empty or begins with a slash. -/
def Rooted (path : String) : Prop := path = "" ∨ path.toList.head? = some '/'

instance (path : String) : Decidable (Rooted path) := inferInstanceAs (Decidable (_ ∨ _))

def withDefault (uri : Uri) : Option Nat := if uri.scheme.bind defaultPort = uri.port then none else uri.port

/-- The parts of a URL put together around a host that is already spelled. -/
def recompose (uri : Uri) (host : String) : String :=
  (uri.scheme.map (· ++ ":")).getD "" ++ "//" ++ (uri.userinfo.map (· ++ "@")).getD "" ++ host ++
    ((uri.withDefault.map fun port => ":" ++ toString port).getD "" ++ uri.path.getD "" ++
      (uri.query.map ("?" ++ ·)).getD "" ++ (uri.fragment.map ("#" ++ ·)).getD "")

/-- A host with a colon can only be an IPv6 literal: it is put in brackets. -/
def bracketed (host : String) : String := if ':' ∈ host.toList then "[" ++ host ++ "]" else host

/-- `URI.to_string/1` of a URL with a host. -/
def print (uri : Uri) (host : String) : Option String :=
  if ∀ path ∈ uri.path, Rooted path then some (uri.recompose (bracketed host)) else none

end Uri

/-! ## Addresses -/

inductive Ip where
  | v4 (a b c d : Fin 256)
  | v6 (a b c d e f g h : Fin 65536)
  deriving Repr, DecidableEq

namespace Ip

def parts : Ip → List Nat
  | v4 a b c d => [a, b, c, d]
  | v6 a b c d e f g h => [a, b, c, d, e, f, g, h]

def isV4 : Ip → Bool
  | v4 .. => true
  | v6 .. => false

end Ip

inductive Family where
  | inet | inet6
  deriving Repr, DecidableEq

/-- `none` is an error. -/
abbrev Resolver := String → Family → Option (List Ip)

/-- What the policy takes from the language. -/
structure Inet where
  newUri : String → Except String Uri
  parseAddress : String → Option Ip
  ntoa : Ip → String
  inspect : Term → String

namespace A2ATransport.WebhookPolicy

/-- An address, and how many of its leading bits count. -/
structure Cidr where
  net : Ip
  bits : Nat
  deriving Repr, DecidableEq

def blockedV4 : List Cidr :=
  [⟨.v4 0 0 0 0, 8⟩, ⟨.v4 10 0 0 0, 8⟩, ⟨.v4 100 64 0 0, 10⟩, ⟨.v4 127 0 0 0, 8⟩, ⟨.v4 169 254 0 0, 16⟩,
    ⟨.v4 172 16 0 0, 12⟩, ⟨.v4 192 0 0 0, 24⟩, ⟨.v4 192 0 2 0, 24⟩, ⟨.v4 192 168 0 0, 16⟩, ⟨.v4 198 18 0 0, 15⟩,
    ⟨.v4 198 51 100 0, 24⟩, ⟨.v4 203 0 113 0, 24⟩, ⟨.v4 224 0 0 0, 4⟩, ⟨.v4 240 0 0 0, 4⟩]

def blockedV6 : List Cidr :=
  [⟨.v6 0 0 0 0 0 0 0 0, 128⟩, ⟨.v6 0 0 0 0 0 0 0 1, 128⟩,
    -- IPv4-compatible
    ⟨.v6 0 0 0 0 0 0 0 0, 96⟩, ⟨.v6 0x64 0xFF9B 0 0 0 0 0 0, 96⟩,
    -- NAT64 local-use
    ⟨.v6 0x64 0xFF9B 1 0 0 0 0 0, 48⟩,
    -- Teredo and 6to4
    ⟨.v6 0x2001 0 0 0 0 0 0 0, 32⟩, ⟨.v6 0x2002 0 0 0 0 0 0 0, 16⟩,
    ⟨.v6 0x100 0 0 0 0 0 0 0, 64⟩, ⟨.v6 0x2001 0xDB8 0 0 0 0 0 0, 32⟩, ⟨.v6 0xFC00 0 0 0 0 0 0 0, 7⟩,
    ⟨.v6 0xFE80 0 0 0 0 0 0 0, 10⟩, ⟨.v6 0xFF00 0 0 0 0 0 0 0, 8⟩]

def toInt (ip : Ip) (width : Nat) : Nat := Radix.number width ip.parts

/-- Addresses of the two families are never in one range. -/
def inCidr (ip : Ip) (cidr : Cidr) : Bool :=
  if ip.parts.length = cidr.net.parts.length then
    let width := if ip.parts.length = 4 then 8 else 16
    let shift := ip.parts.length * width - cidr.bits
    toInt ip width >>> shift = toInt cidr.net width >>> shift
  else false

def blockedV4Address (ip : Ip) : Bool := ip = .v4 255 255 255 255 || blockedV4.any (inCidr ip)

/-- The IPv4 address in two groups of an IPv6 one. -/
def embedded (hi lo : Fin 65536) : Ip :=
  .v4 (.ofNat 256 (hi.val >>> 8)) (.ofNat 256 (hi.val &&& 0xFF)) (.ofNat 256 (lo.val >>> 8)) (.ofNat 256 (lo.val &&& 0xFF))

/-- An IPv4-mapped address is as public as the one it maps. -/
def blockedAddress : Ip → Bool
  | .v4 a b c d => blockedV4Address (.v4 a b c d)
  | .v6 a b c d e f g h =>
    if a = 0 ∧ b = 0 ∧ c = 0 ∧ d = 0 ∧ e = 0 ∧ f = 0xFFFF then blockedV4Address (embedded g h)
    else blockedV6.any (inCidr (.v6 a b c d e f g h))

/-! ## Admission -/

structure Refusal where
  code : String
  detail : String
  deriving Repr, DecidableEq

abbrev malformed (detail : String) : Refusal := ⟨"refused_webhook_malformed", detail⟩

/-- The allowed ranges are given as a list, or as something that is refused. -/
inductive CidrList where
  | entries (list : List Term)
  | other (term : Term)
  deriving Repr, DecidableEq

structure Options where
  allowHttp : Bool := false
  allowCidrs : CidrList := .entries []
  resolver : Resolver

structure Admitted where
  uri : Uri
  addresses : List Ip
  deriving Repr, DecidableEq

def parse (inet : Inet) (url : String) : Except Refusal (Uri × String) :=
  match inet.newUri url with
  | .ok uri =>
    match uri.host with
    | some host =>
      if host = "" then .error (malformed "webhook url has no host")
      else if uri.userinfo = none then .ok (uri, host)
      else .error (malformed "webhook url must not carry userinfo")
    | none => .error (malformed "webhook url has no host")
  | .error part => .error (malformed ("webhook url is not a valid URI at " ++ inet.inspect (.binary part)))

def checkScheme (inet : Inet) (uri : Uri) (allowHttp : Bool) : Except Refusal Unit :=
  if uri.scheme = some "https" ∨ (uri.scheme = some "http" ∧ allowHttp = true) then .ok ()
  else .error ⟨"refused_webhook_scheme",
    "webhook scheme " ++ inet.inspect ((uri.scheme.map Term.binary).getD .nil) ++ " is not admitted"⟩

/-- `Integer.parse/1`. -/
def integerParse (text : String) : Option (Int × String) :=
  let (sign, rest) : Int × List Char := match text.toList with
    | '-' :: rest => (-1, rest)
    | '+' :: rest => (1, rest)
    | rest => (1, rest)
  let digits := rest.takeWhile Char.isDigit
  if digits = [] then none
  else some (sign * (digits.foldl (fun value digit => value * 10 + (digit.toNat - '0'.toNat)) 0 : Nat),
    .ofList (rest.drop digits.length))

def parseCidr (inet : Inet) : Term → Option Cidr
  | .binary cidr =>
    let (addr, rest) := cidr.toList.span (· ≠ '/')
    match inet.parseAddress (.ofList addr) with
    | none => none
    | some ip =>
      let max := if ip.parts.length = 4 then 32 else 128
      match rest with
      | [] => some ⟨ip, max⟩
      | _ :: bits =>
        match integerParse (.ofList bits) with
        | some (n, "") => if 0 ≤ n ∧ n ≤ max then some ⟨ip, n.toNat⟩ else none
        | _ => none
  | _ => none

def parseEntries (inet : Inet) : List Term → List Cidr → Except Refusal (List Cidr)
  | [], acc => .ok acc
  | cidr :: rest, acc =>
    match parseCidr inet cidr with
    | some c => parseEntries inet rest (c :: acc)
    | none => .error (malformed ("bad allow_cidrs entry " ++ inet.inspect cidr))

def parseCidrs (inet : Inet) : CidrList → Except Refusal (List Cidr)
  | .entries list => parseEntries inet list []
  | .other term => .error (malformed ("allow_cidrs must be a list, got " ++ inet.inspect term))

/-- `String.trim_leading(host, "[")` and `String.trim_trailing(host, "]")`. -/
def trimBrackets (host : String) : String :=
  .ofList (((host.toList.dropWhile (· = '[')).reverse.dropWhile (· = ']')).reverse)

def resolve (inet : Inet) (host : String) (resolver : Resolver) : Except Refusal (List Ip) :=
  let host := trimBrackets host
  match inet.parseAddress host with
  | some ip => .ok [ip]
  | none =>
    let addrs := ([Family.inet, .inet6].flatMap fun family => (resolver host family).getD []).eraseDups
    if addrs = [] then
      .error ⟨"refused_webhook_unresolvable", "webhook host " ++ inet.inspect (.binary host) ++ " did not resolve"⟩
    else .ok addrs

def refusedAddress (allow : List Cidr) (ip : Ip) : Bool := blockedAddress ip && ! allow.any (inCidr ip)

def checkAddresses (inet : Inet) (addresses : List Ip) (allow : List Cidr) : Except Refusal Unit :=
  match addresses.find? (refusedAddress allow) with
  | none => .ok ()
  | some ip => .error ⟨"refused_webhook_private_address",
      "webhook host resolves to non-public address " ++ inet.ntoa ip⟩

def admitUrl (inet : Inet) (url : Term) (opts : Options) : Except Refusal Admitted :=
  match url with
  | .binary url => do
    let (uri, host) ← parse inet url
    checkScheme inet uri opts.allowHttp
    let allow ← parseCidrs inet opts.allowCidrs
    let addresses ← resolve inet host opts.resolver
    checkAddresses inet addresses allow
    pure ⟨uri, addresses⟩
  | _ => .error (malformed "webhook url must be a string")

end A2ATransport.WebhookPolicy
end AshA2A
