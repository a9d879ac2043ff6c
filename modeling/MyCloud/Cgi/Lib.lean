import MyCloud.Shell.Expand

/-!
# `lib.sh`: the form of a request

`read_post` and `getv`, through the pipelines they run: `head -c`, `tr '&' '\n'`, `sed -n 's/^k=//p'`,
`head -1` and `printf '%b'`. `field` is `$(getv k)`, the way every page reads a field.
-/

set_option autoImplicit false

namespace Cgi

open Shell

/-- What the server passes to a page. -/
structure Request where
  /-- `REQUEST_METHOD`, empty when unset. -/
  method : Bytes
  /-- `CONTENT_LENGTH`. -/
  contentLength : Option ℕ
  /-- The standard input. -/
  body : Bytes
  deriving DecidableEq

def POST : Bytes := bytes "POST"

def ampersand : UInt8 := '&'.toUInt8

def equals : UInt8 := '='.toUInt8

def plus : UInt8 := '+'.toUInt8

def percent : UInt8 := '%'.toUInt8

def blank : UInt8 := ' '.toUInt8

/-- `local d="${1//+/ }"; printf '%b' "${d//%/\\x}"`. -/
def urldecode (s : Bytes) : Bytes :=
  let d := s.map fun c => if c = plus then blank else c
  expand (d.flatMap fun c => if c = percent then bytes "\\x" else [c])

/-- `POST_DATA`. -/
def read_post (r : Request) : Bytes :=
  if r.method = POST then subst (r.body.take (r.contentLength.getD 0)) else []

/-- `s/^k=//p`, for a `k` without regex characters. -/
def sedField (k l : Bytes) : Option Bytes :=
  if k ++ [equals] <+: l then some (l.drop (k.length + 1)) else none

/-- `printf '%s' "$POST_DATA" | tr '&' '\n' | sed -n "s/^$1=//p" | head -1`, captured. -/
def rawField (post k : Bytes) : Bytes :=
  let ls := records nl (post.map fun c => if c = ampersand then nl else c)
  subst (terminate nl ((ls.filterMap (sedField k)).take 1))

def getv (post k : Bytes) : Bytes := urldecode (rawField post k)

/-- `$(getv k)`. -/
def field (post k : Bytes) : Bytes := subst (getv post k)

end Cgi
