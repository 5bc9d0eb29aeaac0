import FlinkExplorer.Parser.JavaKey

namespace FlinkExplorer.Web

open Lib

/-!
# `web/html.rs`, `web/pages.rs` — URLs

`urlEncode` writes a component of a URL, `urlDecode` reads one of a query string, `href` writes a
link and `parseQuery` reads what comes after its question mark:

* `urlDecode_urlEncode` — every text is read back, whatever characters it has;
* `parseQuery_href` — every list of parameters is read back, in order.
-/

/-! ### `html.rs` -/

/-- The unreserved characters, as bytes. -/
def isUnreserved (b : UInt8) : Bool :=
  let n := b.toNat
  (65 ≤ n && n ≤ 90) || (97 ≤ n && n ≤ 122) || (48 ≤ n && n ≤ 57)
    || n == 45 || n == 46 || n == 95 || n == 126

/-- One byte of a URL component. -/
def urlByte (b : UInt8) : Text :=
  if isUnreserved b then [Char.ofNat b.toNat]
  else ['%', hexDigitUpper (b.toNat / 16), hexDigitUpper (b.toNat % 16)]

/-- Percent-encode a URL component: everything but the unreserved characters. -/
def urlEncode (s : Text) : Text := (encodeUtf8 s).flatMap urlByte

/-- `to_digit(16)` of a byte as a character. -/
def hexOf (b : UInt8) : Option Nat :=
  let c := Char.ofNat b.toNat
  if isHexDigit c then some (hexValue c) else none

/-- The bytes a percent-encoded component stands for; an escape that is none is kept as it is. -/
def percentBytes (plusIsSpace : Bool) : Bytes → Bytes
  | [] => []
  | b :: rest =>
    if b = 43 && plusIsSpace then 32 :: percentBytes plusIsSpace rest
    else if b = 37 then
      match rest with
      | h :: l :: after =>
        match hexOf h, hexOf l with
        | some h, some l => UInt8.ofNat (h * 16 + l) :: percentBytes plusIsSpace after
        | _, _ => b :: percentBytes plusIsSpace (h :: l :: after)
      | short => b :: percentBytes plusIsSpace short
    else b :: percentBytes plusIsSpace rest

def percentDecode (s : Text) (plusIsSpace : Bool) : Text :=
  decodeUtf8Lossy (percentBytes plusIsSpace (encodeUtf8 s))

/-- Decode a component of a query string, where `+` is a space. -/
def urlDecode (s : Text) : Text := percentDecode s true

/-- Decode a segment of a path, where `+` stays a `+`. -/
def urlDecodePath (s : Text) : Text := percentDecode s false

/-! ### `pages.rs` and `mod.rs` -/

/-- The parameters of a link, the first after `?` and the others after `&`. -/
def hrefParams : Char → List (Text × Text) → Text
  | _, [] => []
  | sep, (k, v) :: params => sep :: urlEncode k ++ '=' :: urlEncode v ++ hrefParams '&' params

def href (path : Text) (params : List (Text × Text)) : Text := path ++ hrefParams '?' params

def opPath (op sub : Text) : Text :=
  if sub.isEmpty then "/op/".toList ++ urlEncode op
  else "/op/".toList ++ urlEncode op ++ '/' :: sub

/-- The pairs of a query string, decoded, in order. -/
def parseQuery (query : Text) : List (Text × Text) :=
  ((query.splitOn '&').filter fun p => !p.isEmpty).map fun p =>
    let (k, v) := (splitOnce '=' p).getD (p, [])
    (urlDecode k, urlDecode v)

/-- What a URL has after its question mark. -/
def queryOf (url : Text) : Text := (splitOnce '?' url).elim [] (·.2)

/-! ### Reading back what was written -/

theorem isUnreserved_bounds {b : UInt8} (h : isUnreserved b = true) :
    b.toNat < 128 ∧ b.toNat ≠ 37 ∧ b.toNat ≠ 38 ∧ b.toNat ≠ 43 ∧ b.toNat ≠ 47 ∧ b.toNat ≠ 61
      ∧ b.toNat ≠ 63 := by
  simp only [isUnreserved, Bool.or_eq_true, Bool.and_eq_true, decide_eq_true_eq, beq_iff_eq] at h
  omega

/-- An upper-case hexadecimal digit is one byte that reads as its value. -/
theorem hexOf_hexDigitUpper {n : Nat} (h : n < 16) :
    utf8Bytes (hexDigitUpper n) = [UInt8.ofNat (hexDigitUpper n).toNat]
      ∧ hexOf (UInt8.ofNat (hexDigitUpper n).toNat) = some n := by
  interval_cases n <;> decide

theorem percentBytes_urlByte (plusIsSpace : Bool) (b : UInt8) (rest : Bytes) :
    percentBytes plusIsSpace (encodeUtf8 (urlByte b) ++ rest)
      = b :: percentBytes plusIsSpace rest := by
  unfold urlByte
  by_cases hplain : isUnreserved b = true
  · obtain ⟨hascii, hpercent, -, hplus, -⟩ := isUnreserved_bounds hplain
    have hvalid : b.toNat.isValidChar := .inl (by omega)
    have hbyte : utf8Bytes (Char.ofNat b.toNat) = [b] := by
      rw [utf8Bytes_ascii (by rw [toNat_charOfNat hvalid]; exact hascii), toNat_charOfNat hvalid,
        UInt8.ofNat_toNat]
    have hne37 : b ≠ 37 := fun h => hpercent (by rw [h]; rfl)
    have hne43 : b ≠ 43 := fun h => hplus (by rw [h]; rfl)
    rw [if_pos hplain, encodeUtf8_cons, encodeUtf8_nil, hbyte, List.append_nil,
      List.singleton_append, percentBytes.eq_def]
    simp [hne37, hne43]
  · have hlt : b.toNat < 256 := b.toNat_lt
    obtain ⟨hhi, hhivalue⟩ := hexOf_hexDigitUpper (n := b.toNat / 16) (by omega)
    obtain ⟨hlo, hlovalue⟩ := hexOf_hexDigitUpper (n := b.toNat % 16) (by omega)
    have hpercent : utf8Bytes '%' = [37] := by decide
    have hvalue : b.toNat / 16 * 16 + b.toNat % 16 = b.toNat := by omega
    rw [if_neg hplain, encodeUtf8_cons, encodeUtf8_cons, encodeUtf8_cons, encodeUtf8_nil, hpercent,
      hhi, hlo]
    simp only [List.append_nil, List.cons_append, List.nil_append]
    rw [percentBytes.eq_def]
    simp [hhivalue, hlovalue, hvalue]

theorem percentBytes_urlEncode (plusIsSpace : Bool) (bs rest : Bytes) :
    percentBytes plusIsSpace (encodeUtf8 (bs.flatMap urlByte) ++ rest)
      = bs ++ percentBytes plusIsSpace rest := by
  induction bs with
  | nil => rfl
  | cons b bs ih =>
    rw [List.flatMap_cons, encodeUtf8_append, List.append_assoc, percentBytes_urlByte, ih,
      List.cons_append]

theorem percentDecode_urlEncode (s : Text) (plusIsSpace : Bool) :
    percentDecode (urlEncode s) plusIsSpace = s := by
  have hbytes := percentBytes_urlEncode plusIsSpace (encodeUtf8 s) []
  rw [List.append_nil, percentBytes, List.append_nil] at hbytes
  unfold percentDecode urlEncode
  rw [hbytes, decodeUtf8Lossy_encodeUtf8]

/-- **`url_decode` undoes `url_encode`**, on every text. -/
theorem urlDecode_urlEncode (s : Text) : urlDecode (urlEncode s) = s :=
  percentDecode_urlEncode s true

theorem urlDecodePath_urlEncode (s : Text) : urlDecodePath (urlEncode s) = s :=
  percentDecode_urlEncode s false

/-- None of the characters that take a URL apart. -/
def Unsplit (t : Text) : Prop := '&' ∉ t ∧ '=' ∉ t ∧ '?' ∉ t ∧ '/' ∉ t

theorem unsplit_urlByte (b : UInt8) : Unsplit (urlByte b) := by
  unfold urlByte
  by_cases hplain : isUnreserved b = true
  · obtain ⟨hascii, -, hand, -, hslash, heq, hquestion⟩ := isUnreserved_bounds hplain
    have hvalid : b.toNat.isValidChar := .inl (by omega)
    have hne {c : Char} (hc : b.toNat ≠ c.toNat) : c ∉ [Char.ofNat b.toNat] := fun hmem => by
      rw [List.mem_singleton.mp hmem, toNat_charOfNat hvalid] at hc
      exact hc rfl
    rw [if_pos hplain]
    exact ⟨hne hand, hne heq, hne hquestion, hne hslash⟩
  · have hlt : b.toNat < 256 := b.toNat_lt
    have hdigit {n : Nat} (hn : n < 16) : Unsplit [hexDigitUpper n] := by
      unfold Unsplit
      interval_cases n <;> decide
    have hhi := hdigit (n := b.toNat / 16) (by omega)
    have hlo := hdigit (n := b.toNat % 16) (by omega)
    rw [if_neg hplain]
    simp only [Unsplit, List.mem_singleton] at hhi hlo
    simp [Unsplit, hhi, hlo]

theorem unsplit_urlEncode (s : Text) : Unsplit (urlEncode s) := by
  have hnot {c : Char} (hc : ∀ b, c ∉ urlByte b) : c ∉ urlEncode s := fun hmem => by
    obtain ⟨b, -, hb⟩ := List.mem_flatMap.mp hmem
    exact hc b hb
  exact ⟨hnot fun b => (unsplit_urlByte b).1, hnot fun b => (unsplit_urlByte b).2.1,
    hnot fun b => (unsplit_urlByte b).2.2.1, hnot fun b => (unsplit_urlByte b).2.2.2⟩

/-- One parameter of a link. -/
def paramText (p : Text × Text) : Text := urlEncode p.1 ++ '=' :: urlEncode p.2

theorem and_not_mem_paramText (p : Text × Text) : '&' ∉ paramText p := by
  simp [paramText, (unsplit_urlEncode p.1).1, (unsplit_urlEncode p.2).1]

theorem hrefParams_cons (sep : Char) (p : Text × Text) (params : List (Text × Text)) :
    hrefParams sep (p :: params) = sep :: ['&'].intercalate ((p :: params).map paramText) := by
  induction params generalizing sep p with
  | nil => simp [hrefParams, paramText, List.intercalate]
  | cons q params ih =>
    have hjoin : ['&'].intercalate ((p :: q :: params).map paramText)
        = paramText p ++ '&' :: ['&'].intercalate ((q :: params).map paramText) := by
      simp [List.intercalate]
    rw [hjoin, ← ih '&' q]
    simp [hrefParams, paramText]

/-- A link is taken apart at its question mark. -/
theorem queryOf_href {path : Text} (hpath : '?' ∉ path) (params : List (Text × Text)) :
    queryOf (href path params) = (hrefParams '?' params).drop 1 := by
  unfold queryOf href
  cases params with
  | nil => simp [hrefParams, splitOnce_none hpath]
  | cons p params =>
    rw [hrefParams_cons, splitOnce_append _ hpath]
    rfl

/-- **`parse_query` recovers the pairs of a link**, every one, in order. -/
theorem parseQuery_href {path : Text} (hpath : '?' ∉ path) (params : List (Text × Text)) :
    parseQuery (queryOf (href path params)) = params := by
  rw [queryOf_href hpath]
  cases params with
  | nil => rfl
  | cons p params =>
    have hsplit : (['&'].intercalate ((p :: params).map paramText)).splitOn '&'
        = (p :: params).map paramText :=
      List.splitOn_intercalate '&'
        (fun t ht => by
          obtain ⟨q, -, rfl⟩ := List.mem_map.mp ht
          exact and_not_mem_paramText q)
        (by simp)
    have hnonempty : ((p :: params).map paramText).filter (fun t => !t.isEmpty)
        = (p :: params).map paramText :=
      List.filter_eq_self.mpr fun t ht => by
        obtain ⟨q, -, rfl⟩ := List.mem_map.mp ht
        simp [paramText]
    unfold parseQuery
    rw [hrefParams_cons, List.drop_succ_cons, List.drop_zero, hsplit, hnonempty, List.map_map]
    refine (List.map_congr_left fun q _ => ?_).trans (List.map_id _)
    have honce : splitOnce '=' (paramText q) = some (urlEncode q.1, urlEncode q.2) :=
      splitOnce_append _ (unsplit_urlEncode q.1).2.1
    simp only [Function.comp_apply, honce, Option.getD_some, urlDecode_urlEncode, id_eq]

example : urlEncode "a b&=+%é".toList = "a%20b%26%3D%2B%25%C3%A9".toList := by decide +kernel

end FlinkExplorer.Web
