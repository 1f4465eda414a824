import ManualQpack.Runtime

namespace ManualQpack

/-!
# The static table (RFC 9204 Appendix A)

`qpack_static_table.py` holds 99 `(name, value)` pairs.  The encoder reads
only `STATIC_TABLE[index][0]`, the name, so only the name column is modelled.
-/

/-- The octets of an ASCII text, as a `b"..."` literal has them. -/
def asciiBytes (text : String) : Bytes :=
  text.toList.map fun character => UInt8.ofNat character.toNat

/-- The name column of `STATIC_TABLE`, index 0 first; each row's comment is its first index. -/
def staticTable : List Bytes :=
  [
    ":authority", ":path", "age", "content-disposition",  -- 0
    "content-length", "cookie", "date", "etag",  -- 4
    "if-modified-since", "if-none-match", "last-modified", "link",  -- 8
    "location", "referer", "set-cookie", ":method",  -- 12
    ":method", ":method", ":method", ":method",  -- 16
    ":method", ":method", ":scheme", ":scheme",  -- 20
    ":status", ":status", ":status", ":status",  -- 24
    ":status", "accept", "accept", "accept-encoding",  -- 28
    "accept-ranges", "access-control-allow-headers", "access-control-allow-headers", "access-control-allow-origin",  -- 32
    "cache-control", "cache-control", "cache-control", "cache-control",  -- 36
    "cache-control", "cache-control", "content-encoding", "content-encoding",  -- 40
    "content-type", "content-type", "content-type", "content-type",  -- 44
    "content-type", "content-type", "content-type", "content-type",  -- 48
    "content-type", "content-type", "content-type", "range",  -- 52
    "strict-transport-security", "strict-transport-security", "strict-transport-security", "vary",  -- 56
    "vary", "x-content-type-options", "x-xss-protection", ":status",  -- 60
    ":status", ":status", ":status", ":status",  -- 64
    ":status", ":status", ":status", ":status",  -- 68
    "accept-language", "access-control-allow-credentials", "access-control-allow-credentials", "access-control-allow-headers",  -- 72
    "access-control-allow-methods", "access-control-allow-methods", "access-control-allow-methods", "access-control-expose-headers",  -- 76
    "access-control-request-headers", "access-control-request-method", "access-control-request-method", "alt-svc",  -- 80
    "authorization", "content-security-policy", "early-data", "expect-ct",  -- 84
    "forwarded", "if-range", "origin", "purpose",  -- 88
    "server", "timing-allow-origin", "upgrade-insecure-requests", "user-agent",  -- 92
    "x-forwarded-for", "x-frame-options", "x-frame-options"  -- 96
  ].map asciiBytes

/-- `STATIC_TABLE_SIZE = len(STATIC_TABLE)`. -/
def staticTableSize : Nat :=
  staticTable.length

@[simp] theorem staticTableSize_eq : staticTableSize = 99 := rfl

end ManualQpack
