import AshA2A.Crypto
import AshA2A.Protocol.Agent.Runtime

/-! Whose task it is: the key of the identity that the transport has verified. -/

namespace AshA2A

/-- `MetadataKey.get/2`: the atom, and if it is not there its name. -/
def metadataKey? (entries : Term) (key : String) : Option Term :=
  Protocol.Agent.Runtime.entry? (.atom key) entries <|> Protocol.Agent.Runtime.entry? (.binary key) entries

namespace Transport

/-- No key is the anonymous caller. -/
abbrev Principal := Option String

namespace Principal

def claim (identity : Term) (claim : String) : Option String :=
  match metadataKey? identity claim with
  | some (.binary value) => if value = "" then none else some value
  | some (.integer value) => some (toString value)
  | some (.atom value) => if value ∈ ["nil", "true", "false"] then none else some value
  | _ => none

variable (crypto : Crypto)

def digest (identity : Term) : String := "h:" ++ crypto.sha256 (.term identity)

def allClaims (entries : Term) (claims : List String) : String :=
  match claims.mapM fun name => (claim entries name).map fun value => name ++ ":" ++ value with
  | some values => "|".intercalate values
  | none => digest crypto (.map entries)

def firstClaim (entries : Term) (claims : List String) : String :=
  (claims.findSome? fun name => (claim entries name).map fun value => name ++ ":" ++ value).getD
    (digest crypto (.map entries))

/-- One subject of two issuers is two principals. -/
def scopeIssuer (key : String) (entries : Term) : String :=
  if key.startsWith "h:" then key
  else
    match claim entries "iss" with
    | some issuer => key ++ "|iss:" ++ issuer
    | none => key

/-- `claims` is the configured list; an empty one is none. -/
def key (claims : List String) : Term → Principal
  | .atom "nil" => none
  | .binary identity => some ("id:" ++ identity)
  | .map entries =>
    match claims with
    | [] => some (scopeIssuer (firstClaim crypto entries ["sub", "id"]) entries)
    | claims => some (allClaims crypto entries claims)
  | identity => some (digest crypto identity)

def fromMetadata (claims : List String) (metadata : TermMap) : Principal :=
  match metadata.get? (.binary "a2a.auth") with
  | some (.map auth) =>
    match Protocol.Agent.Runtime.entry? (.atom "identity") auth with
    | some identity => key crypto claims identity
    | none => none
  | _ => none

end Principal
end Transport
end AshA2A
