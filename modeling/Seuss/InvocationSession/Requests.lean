import Seuss.Data.Http
import Seuss.InvocationSession.Basic
import Seuss.Json.Parser

/-!
This module contains what the action runner of an instance reads in the requests that
`http_post_request` makes.
-/

namespace Seuss
namespace InvocationSession

def initPath : CString := "/init".toList

def runPath : CString := "/run".toList

def requestBody (path msg : CString) : CString :=
  let msg := msg.filter (· ≠ '\n')
  let value :=
    if path = "/init".toList ∨ path = "/preInit".toList then
      "\x7b\"main\":\"main\", \"code\":\"".toList ++ msg ++ "\"\x7d\x7d".toList
    else
      msg ++ "\x7d".toList
  "\x7b\"value\": ".toList ++ value

def requestLine (path : CString) : CString :=
  "POST ".toList ++ path ++ " HTTP/1.0".toList

def requestFields (keepAlive : Bool) (length : Nat) : List CString :=
  ["Content-Type: application/json".toList]
    ++ (if keepAlive then ["Connection: keep-alive".toList] else [])
    ++ ["content-length: ".toList ++ CString.ofNat length]

def parsedFields (keepAlive : Bool) (length : Nat) : List (CString × CString) :=
  [("Content-Type".toList, "application/json".toList)]
    ++ (if keepAlive then [("Connection".toList, "keep-alive".toList)] else [])
    ++ [("content-length".toList, CString.ofNat length)]

theorem httpPostRequest_eq (path msg : CString) (keepAlive : Bool) :
    httpPostRequest path msg keepAlive
      =
    requestLine path ++ '\r' :: '\n' ::
      (((requestFields keepAlive (requestBody path msg).length).map (· ++ ['\r', '\n'])).flatten
        ++ '\r' :: '\n' :: requestBody path msg) := by
  have hline : " HTTP/1.0\r\n".toList = " HTTP/1.0".toList ++ ['\r', '\n'] := by
    decide
  have htype : "Content-Type: application/json\r\n".toList
      = "Content-Type: application/json".toList ++ ['\r', '\n'] := by
    decide
  have hconnection : "Connection: keep-alive\r\n".toList
      = "Connection: keep-alive".toList ++ ['\r', '\n'] := by
    decide
  have hend : "\r\n\r\n".toList = ['\r', '\n'] ++ ['\r', '\n'] := by
    decide
  have hbody : httpPostRequest path msg keepAlive
      = "POST ".toList ++ path ++ " HTTP/1.0\r\n".toList
        ++ "Content-Type: application/json\r\n".toList
        ++ (if keepAlive then "Connection: keep-alive\r\n".toList else [])
        ++ "content-length: ".toList ++ CString.ofNat (requestBody path msg).length
        ++ "\r\n\r\n".toList ++ requestBody path msg := by
    rfl
  rw [hbody, hline, htype, hconnection, hend]
  unfold requestLine requestFields
  -- which texts these are does not matter for where they are cut
  generalize "POST ".toList = post, " HTTP/1.0".toList = version,
    "Content-Type: application/json".toList = contentType,
    "Connection: keep-alive".toList = connection, "content-length: ".toList = contentLength
  cases keepAlive with
  | false => simp
  | true => simp

section posts

variable {path msg : CString} {keepAlive : Bool} {P : Json.Tree → Prop}

theorem digits_ofNat {n : Nat} {c : Char} (h : c ∈ CString.ofNat n) : c.isDigit = true := by
  exact Nat.isDigit_of_mem_toDigits (by decide) (by decide) h

theorem parseField_contentLength (n : Nat) :
    HttpRequest.parseField ("content-length: ".toList ++ CString.ofNat n)
      =
    some ("content-length".toList, CString.ofNat n) := by
  have hname : HttpRequest.isToken "content-length".toList = true := by
    decide
  refine HttpRequest.parseField_append hname ?_
  intro c hc
  have hdigit := digits_ofNat hc
  rw [Bool.eq_false_iff]
  intro hblank
  simp only [HttpRequest.isBlank, Bool.or_eq_true, beq_iff_eq] at hblank
  rcases hblank with rfl | rfl <;> cases hdigit

theorem parsed_requestFields (keepAlive : Bool) (length : Nat) :
    List.Forall₂ (fun line field => HttpRequest.parseField line = some field ∧ '\r' ∉ line)
      (requestFields keepAlive length) (parsedFields keepAlive length) := by
  have htype : HttpRequest.parseField "Content-Type: application/json".toList
      = some ("Content-Type".toList, "application/json".toList) := by
    decide
  have hconnection : HttpRequest.parseField "Connection: keep-alive".toList
      = some ("Connection".toList, "keep-alive".toList) := by
    decide
  have hreturn : '\r' ∉ "content-length: ".toList ++ CString.ofNat length := by
    rw [List.mem_append, not_or]
    refine ⟨by decide, ?_⟩
    intro hmem
    cases digits_ofNat hmem
  cases keepAlive with
  | false =>
    exact .cons ⟨htype, by decide⟩ (.cons ⟨parseField_contentLength length, hreturn⟩ .nil)
  | true =>
    exact .cons ⟨htype, by decide⟩ (.cons ⟨hconnection, by decide⟩
      (.cons ⟨parseField_contentLength length, hreturn⟩ .nil))

theorem parse_httpPostRequest (path msg : CString) (keepAlive : Bool)
    (hline : HttpRequest.parseRequestLine (requestLine path)
      = some ("POST".toList, path, "HTTP/1.0".toList))
    (hpath : '\r' ∉ requestLine path) :
    HttpRequest.parse (httpPostRequest path msg keepAlive)
      =
    some {
      method := "POST".toList
      target := path
      version := "HTTP/1.0".toList
      fields := parsedFields keepAlive (requestBody path msg).length
      body := requestBody path msg
    } := by
  rw [httpPostRequest_eq]
  exact HttpRequest.parse_lines hline hpath (parsed_requestFields _ _) _

theorem contentLength_parsedFields (target version body : CString) (keepAlive : Bool) (n : Nat) :
    HttpRequest.contentLength? ⟨"POST".toList, target, version, parsedFields keepAlive n, body⟩
      =
    some n := by
  have hfield : HttpRequest.field?
      ⟨"POST".toList, target, version, parsedFields keepAlive n, body⟩ "Content-Length".toList
      = some (CString.ofNat n) := by
    cases keepAlive <;> rfl
  have hdigits : CString.ofNat n ≠ [] ∧ (CString.ofNat n).all Char.isDigit = true := by
    refine ⟨Nat.toDigits_ne_nil, ?_⟩
    rw [List.all_eq_true]
    intro c hc
    exact digits_ofNat hc
  rw [HttpRequest.contentLength?, hfield, Option.bind_some, if_pos hdigits]
  exact congrArg some Nat.ofDigitChars_ten_toDigits

/--
The request is an HTTP POST that is as long as it says, and its body is a JSON text of which `P`
holds.
-/
def Posts (path request : CString) (P : Json.Tree → Prop) : Prop :=
  ∃ req body, HttpRequest.parse request = some req
    ∧ req.method = "POST".toList
    ∧ req.target = path
    ∧ req.contentLength? = some req.body.length
    ∧ Json.parse req.body = some body
    ∧ P body

theorem posts_iff
    (hline : HttpRequest.parseRequestLine (requestLine path)
      = some ("POST".toList, path, "HTTP/1.0".toList))
    (hpath : '\r' ∉ requestLine path) :
    Posts path (httpPostRequest path msg keepAlive) P
      ↔
    ∃ body, Json.parse (requestBody path msg) = some body ∧ P body := by
  have hparse := parse_httpPostRequest path msg keepAlive hline hpath
  constructor
  . rintro ⟨req, body, hreq, _, _, _, hbody, hP⟩
    cases hparse.symm.trans hreq
    exact ⟨body, hbody, hP⟩
  . rintro ⟨body, hbody, hP⟩
    exact ⟨_, body, hparse, rfl, rfl, contentLength_parsedFields _ _ _ _ _, hbody, hP⟩

end posts

section init

variable {code : CString}

theorem requestBody_init (code : CString) :
    requestBody "/init".toList code
      =
    '{' :: '"' :: ("value".toList ++ '"' :: ':' :: ' ' :: '{' :: '"' ::
      ("main".toList ++ '"' :: ':' :: '"' :: ("main".toList ++ '"' :: ',' :: ' ' :: '"' ::
        ("code".toList ++ '"' :: ':' :: '"' ::
          (code.filter (· ≠ '\n') ++ '"' :: ['}', '}']))))) := by
  rfl

def initBody (code : CString) : Json.Tree :=
  .obj [("value".toList, .obj [("main".toList, .str "main".toList), ("code".toList, .str code)])]

theorem filter_of_plain (h : ∀ c ∈ code, Json.isPlain c = true) :
    code.filter (· ≠ '\n') = code := by
  rw [List.filter_eq_self]
  intro c hc
  rw [decide_eq_true_eq]
  rintro rfl
  cases h _ hc

theorem parse_requestBody_init (h : ∀ c ∈ code, Json.isPlain c = true) :
    Json.parse (requestBody "/init".toList code) = some (initBody code) := by
  have hcode : Json.Reads (.value (.str code)) ('"' :: (code ++ '"' :: ['}', '}'])) ['}', '}'] :=
    .str rfl (Json.string_of_plain h _)
  have hinner : Json.Reads (.members []) ['}', '}'] ['}'] := .closeObj rfl
  have houter : Json.Reads (.members []) ['}'] [] := .closeObj rfl
  rw [requestBody_init, filter_of_plain h, Json.parse_eq_some_iff]
  refine ⟨[], ?_, rfl⟩
  refine .obj rfl (Json.key_of_plain (List.all_eq_true.mp rfl) _) ?_ houter
  refine .obj rfl (Json.key_of_plain (List.all_eq_true.mp rfl) _)
    (.str rfl (Json.string_of_plain (List.all_eq_true.mp rfl) _)) ?_
  refine .member rfl ?_ hcode hinner
  rw [Json.key_cons_of_isSpace rfl]
  exact Json.key_of_plain (List.all_eq_true.mp rfl) _

/--
What the body of `/init` can be read as: the code ends where its first quote is not escaped, and what
comes then has to make members of the two objects.
-/
theorem initBody_cases {body : Json.Tree}
    (h : Json.parse (requestBody "/init".toList code) = some body) :
    ∃ x ns ms t u r,
      body = .obj (("value".toList,
          .obj (("main".toList, .str "main".toList) :: ("code".toList, .str x) :: ns)) :: ms)
      ∧ Json.string (code.filter (· ≠ '\n') ++ '"' :: ['}', '}']) = some (x, t)
      ∧ Json.Reads (.members ns) t u
      ∧ Json.Reads (.members ms) u r := by
  rw [requestBody_init, Json.parse_eq_some_iff] at h
  rcases h with ⟨r, hbody, _⟩
  -- `{"value": {`
  rcases hbody.of_brace rfl with ⟨_, hempty⟩ | ⟨k, _, _, j, ms, rfl, hk, hvalue, hms⟩
  . cases hempty
  rw [Json.key_of_plain (List.all_eq_true.mp rfl)] at hk
  cases hk
  rcases hvalue.of_brace rfl with ⟨_, hempty⟩ | ⟨k, _, _, j, ns, rfl, hk, hmain, htail⟩
  . cases hempty
  -- `"main":"main", `
  rw [Json.key_of_plain (List.all_eq_true.mp rfl)] at hk
  cases hk
  rcases hmain.of_quote rfl with ⟨y, rfl, hy⟩
  rw [Json.string_of_plain (List.all_eq_true.mp rfl)] at hy
  cases hy
  rcases htail.of_comma rfl with ⟨k, _, _, j, ns, rfl, hk, hcode, hns⟩
  -- `"code":"`
  rw [Json.key_cons_of_isSpace rfl, Json.key_of_plain (List.all_eq_true.mp rfl)] at hk
  cases hk
  rcases hcode.of_quote rfl with ⟨x, rfl, hx⟩
  exact ⟨x, ns, ms, _, _, r, rfl, hx, hns, hms⟩

theorem get?_initBody (code : CString) :
    ((initBody code).get? "value".toList).bind (·.get? "code".toList) = some (.str code) := by
  rfl

theorem plain_of_initBody {body : Json.Tree}
    (h : Json.parse (requestBody "/init".toList code) = some body)
    (hcode : (body.get? "value".toList).bind (·.get? "code".toList) = some (.str code)) :
    ∀ c ∈ code, Json.isPlain c = true := by
  rcases initBody_cases h with ⟨x, ns, ms, t, u, r, rfl, hx, hns, hms⟩
  have hfilter : (code.filter (· ≠ '\n')).length ≤ code.length := List.length_filter_le _ _
  have hstring := Json.length_string hx
  have hweight := hns.weight_le
  have hweight' := hms.weight_le
  simp only [Json.Part.weight] at hweight hweight'
  rw [Option.bind_eq_some_iff] at hcode
  rcases hcode with ⟨value, hvalue, hcode⟩
  have hcode' := Json.weight_of_get? hcode
  simp only [List.length_append, List.length_cons, List.length_nil] at hstring
  simp only [Json.weight] at hcode'
  rw [Json.get?_obj_cons, Option.or_eq_some_iff] at hvalue
  rcases hvalue with hvalue | ⟨_, hvalue⟩
  . -- a second member `value`: what is left of the text is too short for it
    have hvalue' := Json.weight_of_get? hvalue
    simp only [Json.weight] at hvalue'
    omega
  . rw [if_pos rfl, Option.some.injEq] at hvalue
    subst hvalue
    rw [Json.get?_obj_cons, if_neg (by decide), Option.or_none, Json.get?_obj_cons,
      Option.or_eq_some_iff] at hcode
    rcases hcode with hcode | ⟨_, hcode⟩
    . -- a second member `code`
      have hcode' := Json.weight_of_get? hcode
      simp only [Json.weight] at hcode'
      omega
    . rw [if_pos rfl, Option.some.injEq, Json.str.injEq] at hcode
      subst hcode
      rcases Json.plain_or_shorter_of_string hx with ⟨_, hplain⟩ | hshorter
      . exact hplain
      . -- what is left of the text does not close the two objects
        have hinner := Json.weightMembers_pos ns
        have houter := Json.weightMembers_pos ms
        simp only [List.length_append, List.length_cons, List.length_nil] at hshorter
        omega

end init

section run

variable {args : CString} {v : Json.Tree}

theorem requestBody_run (args : CString) :
    requestBody "/run".toList args
      =
    '{' :: '"' :: ("value".toList ++ '"' :: ':' :: ' ' :: Json.strip ['}'] args) := by
  rfl

theorem parse_requestBody_run (h : Json.parse args = some v) :
    Json.parse (requestBody "/run".toList args) = some (.obj [("value".toList, v)]) := by
  rw [Json.parse_eq_some_iff] at h
  rcases h with ⟨r, hv, hend⟩
  have hclose : Json.skip (Json.strip ['}'] r) = ['}'] := Json.skip_strip_of_nil hend
  have hvalue := hv.strip (t := ['}']) fun _ _ => Json.stops_of_skip hclose rfl
  rw [requestBody_run, Json.parse_eq_some_iff]
  refine ⟨[], ?_, rfl⟩
  refine .obj rfl (Json.key_of_plain (List.all_eq_true.mp rfl) _) ?_ (.closeObj hclose)
  exact hvalue.of_skip_eq (Json.skip_cons_of_isSpace rfl _)

end run

section lossless

variable {code args : CString} {v : Json.Tree}

structure Lossless (code args : CString) (v : Json.Tree) : Prop where
  init : ∀ keepAlive,
    Posts "/init".toList (httpPostRequest "/init".toList code keepAlive) fun body =>
      (body.get? "value".toList).bind (·.get? "code".toList) = some (.str code)
  run : ∀ keepAlive,
    Posts "/run".toList (httpPostRequest "/run".toList args keepAlive) fun body =>
      body.get? "value".toList = some v

theorem posts_init {keepAlive : Bool} {P : Json.Tree → Prop} :
    Posts "/init".toList (httpPostRequest "/init".toList code keepAlive) P
      ↔
    ∃ body, Json.parse (requestBody "/init".toList code) = some body ∧ P body := by
  exact posts_iff (by decide) (by decide)

theorem posts_run {keepAlive : Bool} {P : Json.Tree → Prop} :
    Posts "/run".toList (httpPostRequest "/run".toList args keepAlive) P
      ↔
    ∃ body, Json.parse (requestBody "/run".toList args) = some body ∧ P body := by
  exact posts_iff (by decide) (by decide)

theorem Lossless.plain (h : Lossless code args v) : ∀ c ∈ code, Json.isPlain c = true := by
  rcases posts_init.mp (h.init true) with ⟨body, hbody, hcode⟩
  exact plain_of_initBody hbody hcode

/--
Exactly the code that needs no escapes in a JSON string arrives as it was. Arguments always do.
-/
theorem lossless_iff (h : Json.parse args = some v) :
    Lossless code args v ↔ ∀ c ∈ code, Json.isPlain c = true := by
  constructor
  . exact Lossless.plain
  . intro hplain
    constructor
    . intro keepAlive
      exact posts_init.mpr ⟨_, parse_requestBody_init hplain, get?_initBody code⟩
    . intro keepAlive
      exact posts_run.mpr ⟨_, parse_requestBody_run h, rfl⟩

-- `{"spin":"27",\n"n":7}`
def spinArgs : CString :=
  "\x7b\"spin\":\"27\",\n\"n\":7\x7d".toList

def spinTree : Json.Tree :=
  .obj [("spin".toList, .str ['2', '7']), (['n'], .num ['7'])]

theorem parse_spinArgs : Json.parse spinArgs = some spinTree := by
  have hspin : Json.Reads (.value (.str ['2', '7']))
      ['"', '2', '7', '"', ',', '\n', '"', 'n', '"', ':', '7', '}']
      [',', '\n', '"', 'n', '"', ':', '7', '}'] := .str rfl rfl
  have hn : Json.Reads (.value (.num ['7'])) ['7', '}'] ['}'] := .num rfl
  rw [Json.parse_eq_some_iff]
  refine ⟨[], ?_, rfl⟩
  refine .obj rfl (Json.key_of_plain (k := "spin".toList) (List.all_eq_true.mp rfl) _) hspin ?_
  refine .member rfl (Json.key_of_plain (k := ['n']) (List.all_eq_true.mp rfl) _) hn ?_
  exact .closeObj rfl

def spinMain : CString :=
  "function main(args) \x7b for (var i = 0; i < args.n; i++); return \x7bspun: args.spin\x7d; \x7d".toList

theorem lossless_iff_spin :
    Json.parse spinArgs = some spinTree ∧ Lossless spinMain spinArgs spinTree :=
  ⟨parse_spinArgs, (lossless_iff parse_spinArgs).mpr (List.all_eq_true.mp (by decide))⟩

-- Without the newline the comment takes the rest of the code in.
def commented : CString :=
  "// the entry point\nfunction main(args) \x7b return args; \x7d".toList

theorem commented_not_lossless :
    Json.parse ['{', '}'] = some (.obj []) ∧ ¬ Lossless commented ['{', '}'] (.obj []) := by
  refine ⟨rfl, ?_⟩
  intro h
  exact absurd (h.plain '\n' (by decide)) (by decide)

end lossless

end InvocationSession
end Seuss
