import Seuss.Controller.Ingest

/-!
This module contains the completions as they are read back: whether the text that is sent for a reply
gives back what the payload and the reply contained.
-/

namespace Seuss
namespace Controller

open Msg
open Json (quoted objectText arrayText membersText itemsText Reads Writes Plain)

-- A payload that `ActivationMessage(json)` has parsed and taken apart.
structure Accepted (yajl : Yajl) (json : CString) (node : Json.Tree) (am : ActivationMessage) :
    Prop where
  treeParse : yajl.treeParse (CString.cstr json) = some node
  ofText : ∃ fuel uninit, ActivationMessage.ofText yajl fuel uninit json = .ok am

def sentMessage (invokerId : UInt64) (cm : CompletionMessage) : CompletionMessage :=
  { cm with invoker := { cm.invoker with instance_ := invokerId.toInt64 } }

-- the payload of the message to `completed0`
def sent (invokerId : UInt64) (cm : CompletionMessage) : CString :=
  (sentMessage invokerId cm).toJson

-- the `wait_time` of `ResolveActivation`
def waitTimeOf (record : ActivationRecord) (istats : InvocationStats) (endTime : Time) : UInt64 :=
  millisecondsBetween record.start endTime - istats.exec.runTime - istats.exec.initTime

section statement

variable (yajl : Yajl) (node : Json.Tree)

def HeldAt (path : List CString) (s : CString) : Prop :=
  yajl.treeGet node path .string = some (.str s)

def HeldName (s : CString) : Prop :=
  ∃ vs, yajl.treeGet node ["transid".toList] .array = some (.arr (.str s :: vs))

def HeldId (x : CString) : Prop :=
  ∃ v vs, yajl.treeGet node ["transid".toList] .array = some (.arr (v :: .num x :: vs))

def GivesBack (tree : Json.Tree) (path path' : List CString) : Prop :=
  ∀ s, HeldAt yajl node path s → findNode tree path' = some (.str s)

def NumberAt (tree : Json.Tree) (path : List CString) (q : ℚ) : Prop :=
  ∃ x, findNode tree path = some (.num x) ∧ Json.numberValue x = q

def annotationTree (name x : CString) : Json.Tree :=
  .obj [("key".toList, .str name), ("value".toList, .num x)]

/--
A tree that gives back the strings and the number that the payload holds, and what the reply contained.
-/
structure Faithful (istats : InvocationStats) (waitTime : UInt64) (result tree : Json.Tree) : Prop where
  transidName : ∀ s, HeldName yajl node s →
    ∃ ws, findNode tree ["transid".toList] = some (.arr (.str s :: ws))
  transidId : ∀ x, HeldId yajl node x →
    ∃ w y ws, findNode tree ["transid".toList] = some (.arr (w :: .num y :: ws))
      ∧ Json.numberValue y = Json.numberValue x
  activationId : GivesBack yajl node tree ["activationId".toList]
    ["response".toList, "activationId".toList]
  name : GivesBack yajl node tree ["action".toList, "name".toList] ["response".toList, "name".toList]
  version : GivesBack yajl node tree ["action".toList, "version".toList]
    ["response".toList, "version".toList]
  subject : GivesBack yajl node tree ["user".toList, "subject".toList]
    ["response".toList, "subject".toList]
  namespace_ : GivesBack yajl node tree ["user".toList, "namespace".toList, "name".toList]
    ["response".toList, "namespace".toList]
  result : findNode tree ["response".toList, "response".toList, "result".toList] = some result
  status : NumberAt tree ["response".toList, "response".toList, "statusCode".toList]
    (if istats.exec.status then 1 else 0)
  duration : NumberAt tree ["response".toList, "duration".toList] istats.exec.runTime.toNat
  annotations : ∃ wait init,
    findNode tree ["response".toList, "annotations".toList]
        = some (.arr [annotationTree "waitTime".toList wait, annotationTree "initTime".toList init])
      ∧ Json.numberValue wait = waitTime.toNat ∧ Json.numberValue init = istats.exec.initTime.toNat

def HoldsPlain (path : List CString) : Prop :=
  ∀ s, HeldAt yajl node path s → Plain s

/--
What is copied needs no escapes, the number in `transid` is one that `YAJL_GET_INTEGER` reads and
`uint64_t` holds, and the duration fits into `long long`.
-/
structure Transmissible (istats : InvocationStats) : Prop where
  transidName : ∀ s, HeldName yajl node s → Plain s
  transidId : ∀ x, HeldId yajl node x →
    Json.numberValue x = (yajl.getInteger (.num x)).toUInt64.toNat
  activationId : HoldsPlain yajl node ["activationId".toList]
  name : HoldsPlain yajl node ["action".toList, "name".toList]
  version : HoldsPlain yajl node ["action".toList, "version".toList]
  subject : HoldsPlain yajl node ["user".toList, "subject".toList]
  namespace_ : HoldsPlain yajl node ["user".toList, "namespace".toList, "name".toList]
  duration : istats.exec.runTime.toNat < 2 ^ 63

end statement

variable {yajl : Yajl} {json : CString} {node : Json.Tree} {am : ActivationMessage}

section copied

-- What a member holds that is set to the string the payload holds, if it holds one.
inductive Copied (held : CString → Prop) : CString → Prop where
  | unset (h : ∀ s, ¬ held s) : Copied held []
  | set (s : CString) (h : held s) : Copied held (CString.cstr s)

variable {held : CString → Prop} {x y t r : CString}

theorem Copied.plain (h : Copied held x) (hplain : ∀ s, held s → Plain s) : Plain x := by
  cases h with
  | unset h => simp [Plain]
  | set s h =>
    rw [cstr_of_plain (hplain s h)]
    exact hplain s h

theorem Copied.eq {s : CString} (h : Copied held x) (hplain : ∀ s, held s → Plain s)
    (hunique : ∀ s s', held s → held s' → s = s') (hs : held s) :
    x = s := by
  cases h with
  | unset h => exact absurd hs (h s)
  | set s' hs' =>
    rw [hunique s s' hs hs']
    exact cstr_of_plain (hplain s' hs')

-- There is one string that is held, and the text goes on where it was written to end.
theorem Copied.of_read (h : Copied held x) (hread : Json.string (x ++ '"' :: t) = some (y, r))
    (ht : Json.PlainUntilQuote t) (hback : ∀ s, held s → y = s) :
    Plain x ∧ ∀ s, held s → Plain s := by
  cases h with
  | unset h => exact ⟨by simp [Plain], fun s hs => absurd hs (h s)⟩
  | set s h =>
    cases hback s h
    rcases Json.plain_of_string_eq (CString.cstr_isPrefix y) hread ht with ⟨heq, hplain, _⟩
    rw [heq]
    refine ⟨hplain, ?_⟩
    intro s hs
    cases hback s hs
    exact hplain

theorem heldAt_unique (path : List CString) (s s' : CString) (hs : HeldAt yajl node path s)
    (hs' : HeldAt yajl node path s') :
    s = s' := by
  cases hs.symm.trans hs'
  rfl

theorem heldName_unique (s s' : CString) (hs : HeldName yajl node s) (hs' : HeldName yajl node s') :
    s = s' := by
  rcases hs with ⟨vs, hs⟩
  rcases hs' with ⟨vs', hs'⟩
  cases hs.symm.trans hs'
  rfl

theorem copied_getStringAt (hyajl : Typed yajl) {path : List CString}
    (h : getStringAt yajl node path [] = .ok x) :
    Copied (HeldAt yajl node path) x := by
  rcases @getStringAt_cases yajl node hyajl path [] with ⟨hget, hnone⟩ | ⟨s, hget, hs⟩
  . cases hnone.symm.trans h
    apply Copied.unset
    intro s hs
    cases hget.symm.trans hs
  . cases hs.symm.trans h
    exact .set s hget

end copied

section accepted

-- where the fields of a completion come from
structure Copies (yajl : Yajl) (node : Json.Tree) (am : ActivationMessage) : Prop where
  transidName : Copied (HeldName yajl node) am.transid.name
  transidId : ∀ x, HeldId yajl node x → am.transid.id = (yajl.getInteger (.num x)).toUInt64
  activationId : Copied (HeldAt yajl node ["activationId".toList]) am.activationId
  name : Copied (HeldAt yajl node ["action".toList, "name".toList]) am.action.name
  version : Copied (HeldAt yajl node ["action".toList, "version".toList]) am.action.version
  subject : Copied (HeldAt yajl node ["user".toList, "subject".toList]) am.user.subject
  namespace_ : Copied (HeldAt yajl node ["user".toList, "namespace".toList, "name".toList])
    am.user.namespace_.name

theorem getTransid_cases (hyajl : Typed yajl) {t t' : TransactionId}
    (h : getTransid yajl node t = .ok t') :
    (yajl.treeGet node ["transid".toList] .array = none ∧ t' = t)
      ∨ ∃ name id vs,
          yajl.treeGet node ["transid".toList] .array = some (.arr (.str name :: id :: vs))
            ∧ t' = { name := CString.cstr name, id := (yajl.getInteger id).toUInt64 } := by
  unfold getTransid at h
  cases hget : yajl.treeGet node ["transid".toList] .array with
  | none =>
    rw [hget] at h
    cases h
    exact .inl ⟨rfl, rfl⟩
  | some v =>
    rw [hget] at h
    cases v with
    | arr values =>
      cases values with
      | nil => cases h
      | cons name values =>
        rcases ok_of_bind h with ⟨s, hs, h⟩
        cases name with
        | str name =>
          cases values with
          | nil => cases h
          | cons id vs =>
            cases hs
            cases h
            exact .inr ⟨name, id, vs, rfl, rfl⟩
        | null | bool | num | arr | obj => cases hs
    | null | bool | num | str | obj => cases hyajl _ _ _ _ hget

theorem getTransid_copies (hyajl : Typed yajl) {id : UInt64} {t : TransactionId}
    (h : getTransid yajl node { name := [], id := id } = .ok t) :
    Copied (HeldName yajl node) t.name
      ∧ ∀ x, HeldId yajl node x → t.id = (yajl.getInteger (.num x)).toUInt64 := by
  rcases getTransid_cases hyajl h with ⟨hnone, rfl⟩ | ⟨name, v, vs, hget, rfl⟩
  . constructor
    . apply Copied.unset
      rintro s ⟨vs, hs⟩
      cases hnone.symm.trans hs
    . rintro x ⟨w, vs, hx⟩
      cases hnone.symm.trans hx
  . constructor
    . exact .set name ⟨_, hget⟩
    . rintro x ⟨w, vs, hx⟩
      cases hget.symm.trans hx
      rfl

theorem getAction_copies (hyajl : Typed yajl) {action : Action}
    (h : getAction yajl node { path := [], name := [], version := [] } = .ok action) :
    Copied (HeldAt yajl node ["action".toList, "name".toList]) action.name
      ∧ Copied (HeldAt yajl node ["action".toList, "version".toList]) action.version := by
  rcases ok_of_bind h with ⟨_, _, h⟩
  rcases ok_of_bind h with ⟨_, hname, h⟩
  rcases ok_of_bind h with ⟨_, hversion, h⟩
  cases h
  exact ⟨copied_getStringAt hyajl hname, copied_getStringAt hyajl hversion⟩

theorem getUser_copies (hyajl : Typed yajl) {user : User}
    (h : getUser yajl node { subject := [], authkey := [], namespace_ := { name := [], uuid := [] } }
      = .ok user) :
    Copied (HeldAt yajl node ["user".toList, "subject".toList]) user.subject
      ∧ Copied (HeldAt yajl node ["user".toList, "namespace".toList, "name".toList])
          user.namespace_.name := by
  rcases ok_of_bind h with ⟨_, hsubject, h⟩
  rcases ok_of_bind h with ⟨_, _, h⟩
  rcases ok_of_bind h with ⟨_, hname, h⟩
  rcases ok_of_bind h with ⟨_, _, h⟩
  cases h
  exact ⟨copied_getStringAt hyajl hsubject, copied_getStringAt hyajl hname⟩

theorem Accepted.copies (hyajl : Typed yajl) (h : Accepted yajl json node am) : Copies yajl node am := by
  rcases h.ofText with ⟨fuel, uninit, hm⟩
  rw [ActivationMessage.ofText, h.treeParse] at hm
  have htaken := ActivationMessage.takenFrom_of_ofNode hm
  exact {
    transidName := (getTransid_copies hyajl htaken.transid).1
    transidId := (getTransid_copies hyajl htaken.transid).2
    activationId := copied_getStringAt hyajl htaken.activationId
    name := (getAction_copies hyajl htaken.action).1
    version := (getAction_copies hyajl htaken.action).2
    subject := (getUser_copies hyajl htaken.user).1
    namespace_ := (getUser_copies hyajl htaken.user).2
  }

end accepted

section annotations

def annotationsTree (waitTime initTime : UInt64) : List Json.Tree :=
  [
    annotationTree "waitTime".toList (CString.ofNat waitTime.toNat),
    annotationTree "initTime".toList (CString.ofNat initTime.toNat)
  ]

theorem annotations_eq (waitTime initTime : UInt64) :
    '[' :: (annotations waitTime initTime ++ [']'])
      =
    arrayText [
      objectText [
        ("key".toList, quoted "waitTime".toList),
        ("value".toList, CString.ofNat waitTime.toNat)
      ],
      objectText [
        ("key".toList, quoted "initTime".toList),
        ("value".toList, CString.ofNat initTime.toNat)
      ]
    ] := by
  unfold annotations
  simp only [arrayText, objectText, membersText, itemsText, Json.memberText, quoted,
    String.reduceToList, List.append_assoc, List.cons_append, List.nil_append]

theorem writes_annotationTree {name : CString} (h : Plain name) (n : Nat) :
    Writes (annotationTree name (CString.ofNat n))
      (objectText [("key".toList, quoted name), ("value".toList, CString.ofNat n)]) := by
  apply Json.writes_objectText
  refine .cons (Json.writesMember rfl (Json.writes_quoted h)) ?_
  exact .cons (Json.writesMember rfl (writes_ofNat n)) .nil

theorem writes_annotations (waitTime initTime : UInt64) :
    Writes (.arr (annotationsTree waitTime initTime))
      ('[' :: (annotations waitTime initTime ++ [']'])) := by
  rw [annotations_eq]
  apply Json.writes_arrayText
  refine .cons (writes_annotationTree (List.all_eq_true.mp rfl) _) ?_
  exact .cons (writes_annotationTree (List.all_eq_true.mp rfl) _) .nil

theorem numberValue_ofNat (n : Nat) : Json.numberValue (CString.ofNat n) = n :=
  Json.numberValue_toDigits n

end annotations

variable {uninit : CompletionMessage} {record : ActivationRecord} {istats : InvocationStats}
  {res : CString} {endTime : Time} {invokerId : UInt64} {result : Json.Tree}

section faithful

theorem Copied.givesBack {path path' : List CString} {x : CString} {tree : Json.Tree}
    (h : Copied (HeldAt yajl node path) x) (hplain : HoldsPlain yajl node path)
    (hfind : findNode tree path' = some (.str x)) :
    GivesBack yajl node tree path path' := by
  intro s hs
  rw [hfind, h.eq hplain (heldAt_unique path) hs]

theorem toInt_toInt64_iff {n : UInt64} :
    (n.toInt64.toInt : ℚ) = n.toNat ↔ n.toNat < 2 ^ 63 := by
  constructor
  . intro h
    have heq : n.toInt64.toInt = n.toNat := by exact_mod_cast h
    have hlt := n.toInt64.toInt_lt
    omega
  . intro h
    rw [toInt_toInt64 h]
    rfl

-- what is read of the text where nothing in it needs an escape
def sentTree (invokerId : UInt64) (uninit : CompletionMessage) (record : ActivationRecord)
    (istats : InvocationStats) (res : CString) (endTime : Time) (result : Json.Tree) : Json.Tree :=
  let cm := completion uninit record istats res endTime
  (sentMessage invokerId cm).tree
    (cm.response.tree result (annotationsTree (waitTimeOf record istats endTime) istats.exec.initTime))

theorem Transmissible.writes (h : Transmissible yajl node istats) (ham : Copies yajl node record.am)
    (hresult : Json.parse res = some result) :
    Writes (sentTree invokerId uninit record istats res endTime result)
      (sent invokerId (completion uninit record istats res endTime)) := by
  have hresponse : (completion uninit record istats res endTime).response.IsPlain := {
    name := ham.name.plain h.name
    subject := ham.subject.plain h.subject
    activationId := ham.activationId.plain h.activationId
    version := ham.version.plain h.version
    namespace_ := ham.namespace_.plain h.namespace_
  }
  have hinvoker : Plain ([] : CString) := by simp [Plain]
  apply CompletionMessage.writes (ham.transidName.plain h.transidName) _ hinvoker
  exact Response.writes hresponse rfl hresult (writes_annotations _ _)

theorem Transmissible.faithful (h : Transmissible yajl node istats) (ham : Copies yajl node record.am) :
    Faithful yajl node istats (waitTimeOf record istats endTime) result
      (sentTree invokerId uninit record istats res endTime result) where
  transidName s hs := by
    refine ⟨[.num (CString.ofNat record.am.transid.id.toNat)], ?_⟩
    rw [← ham.transidName.eq h.transidName heldName_unique hs]
    rfl
  transidId x hx := by
    refine ⟨.str record.am.transid.name, CString.ofNat record.am.transid.id.toNat, [], rfl, ?_⟩
    rw [numberValue_ofNat, ham.transidId x hx, h.transidId x hx]
  activationId := ham.activationId.givesBack h.activationId rfl
  name := ham.name.givesBack h.name rfl
  version := ham.version.givesBack h.version rfl
  subject := ham.subject.givesBack h.subject rfl
  namespace_ := ham.namespace_.givesBack h.namespace_ rfl
  result := rfl
  status := by
    refine ⟨_, rfl, ?_⟩
    rw [numberValue_ofInt]
    cases hstatus : istats.exec.status <;> simp [hstatus, completion]
  duration := by
    refine ⟨_, rfl, ?_⟩
    rw [numberValue_ofInt]
    exact toInt_toInt64_iff.mpr h.duration
  annotations := ⟨_, _, rfl, numberValue_ofNat _, numberValue_ofNat _⟩

end faithful

section transmissible

variable {x t u : CString} {ms : List (CString × Json.Tree)} {ts : List (CString × CString)}
  {m : CString × CString} {k : CString}

/--
A member is read that was written for a string of the payload: if that string is what is found, the text
goes on behind it as it was written.
-/
theorem Copied.of_member {held : CString → Prop} (hx : Copied held x)
    (h : Reads (.members ms) (membersText ((k, quoted x) :: m :: ts) ++ t) u) (hk : Plain k)
    (hback : ∀ y ns, ms = (k, .str y) :: ns → ∀ s, held s → y = s) :
    (∀ s, held s → Plain s)
      ∧ ∃ ns, ms = (k, .str x) :: ns ∧ Reads (.members ns) (membersText (m :: ts) ++ t) u := by
  rcases h.of_membersText hk with ⟨_, _, _, hms, hv, _⟩
  rcases hv.of_quoted with ⟨y, rfl, hread⟩
  rcases hx.of_read hread (Json.plainUntilQuote_membersText ts t) (hback y _ hms) with ⟨hplain, hheld⟩
  exact ⟨hheld, h.of_member hk (Json.writes_quoted hplain)⟩

theorem plainUntilQuote_id (n : Nat) (m : CString × CString) (ts : List (CString × CString))
    (t : CString) :
    Json.PlainUntilQuote (itemsText [CString.ofNat n] ++ (membersText (m :: ts) ++ t)) := by
  rcases m with ⟨k, s⟩
  have hplain : ∀ c ∈ ',' :: (CString.ofNat n ++ [']', ',']), Json.isPlain c = true := by
    intro c hc
    simp only [List.mem_cons, List.mem_append, List.not_mem_nil, or_false] at hc
    rcases hc with rfl | hc | rfl | rfl
    . rfl
    . exact isPlain_of_isNumberChar (numberChar_ofInt (n := n) hc)
    . rfl
    . rfl
  have heq := Json.plainUntilQuote_of_plain hplain (k ++ '"' :: ':' :: (s ++ (membersText ts ++ t)))
  rw [membersText, List.cons_append, List.append_assoc, Json.memberText_append]
  simpa [itemsText] using heq

theorem Copied.of_transid {tid : TransactionId} {tree : Json.Tree}
    (hx : Copied (HeldName yajl node) tid.name)
    (h : Reads (.value tree) (tid.toJson ++ (membersText (m :: ts) ++ t)) u)
    (hback : ∀ y vs, tree = .arr (.str y :: vs) → ∀ s, HeldName yajl node s → y = s) :
    Plain tid.name ∧ ∀ s, HeldName yajl node s → Plain s := by
  rw [TransactionId.toJson_eq] at h
  have hopen : Json.skip (quoted tid.name
      ++ (itemsText [CString.ofNat tid.id.toNat] ++ (membersText (m :: ts) ++ t))) ≠ ']' :: u := by
    rw [Json.quoted_append, Json.skip_cons_of_not_isSpace rfl]
    intro heq
    cases heq
  rcases h.of_arrayText hopen with ⟨_, v, vs, htree, hv, _⟩
  rcases hv.of_quoted with ⟨y, rfl, hread⟩
  exact hx.of_read hread (plainUntilQuote_id _ m ts t) (hback y vs htree)

theorem GivesBack.eq {tree : Json.Tree} {path path' : List CString} {y : CString}
    (h : GivesBack yajl node tree path path') (hfind : findNode tree path' = some (.str y)) :
    ∀ s, HeldAt yajl node path s → y = s := by
  intro s hs
  cases hfind.symm.trans (h s hs)
  rfl

-- The response is read from left to right, each string once everything before it has been read.
theorem holdsPlain_of_response {waitTime : UInt64} {transid response : Json.Tree}
    (ham : Copies yajl node record.am)
    (h : Faithful yajl node istats waitTime result
      (.obj (("transid".toList, transid) :: ("response".toList, response) :: ms)))
    (hread : Reads (.value response)
      ((completion uninit record istats res endTime).response.toJson ++ t) u) :
    (HoldsPlain yajl node ["activationId".toList]
        ∧ HoldsPlain yajl node ["action".toList, "name".toList]
        ∧ HoldsPlain yajl node ["action".toList, "version".toList]
        ∧ HoldsPlain yajl node ["user".toList, "subject".toList]
        ∧ HoldsPlain yajl node ["user".toList, "namespace".toList, "name".toList])
      ∧ findNode response ["duration".toList]
        = some (.num (CString.ofInt istats.exec.runTime.toInt64.toInt)) := by
  rw [Response.toJson_eq] at hread
  rcases hread.of_objectText (List.all_eq_true.mp rfl) with ⟨_, _, members, rfl, hduration, hrest⟩
  rcases (writes_ofInt _).of_reads (Json.stops_membersText _ _) hduration with ⟨rfl, hskip⟩
  have hatName := hrest.of_skip_eq hskip.symm
  have hback : ∀ y ns, members = ("name".toList, .str y) :: ns →
      ∀ s, HeldAt yajl node ["action".toList, "name".toList] s → y = s := by
    rintro y ns rfl
    exact h.name.eq rfl
  rcases ham.name.of_member hatName (List.all_eq_true.mp rfl) hback with
    ⟨hname, members, rfl, hatSubject⟩
  have hback : ∀ y ns, members = ("subject".toList, .str y) :: ns →
      ∀ s, HeldAt yajl node ["user".toList, "subject".toList] s → y = s := by
    rintro y ns rfl
    exact h.subject.eq rfl
  rcases ham.subject.of_member hatSubject (List.all_eq_true.mp rfl) hback with
    ⟨hsubject, members, rfl, hatActivationId⟩
  have hback : ∀ y ns, members = ("activationId".toList, .str y) :: ns →
      ∀ s, HeldAt yajl node ["activationId".toList] s → y = s := by
    rintro y ns rfl
    exact h.activationId.eq rfl
  rcases ham.activationId.of_member hatActivationId (List.all_eq_true.mp rfl) hback with
    ⟨hactivationId, members, rfl, hatPublish⟩
  rcases hatPublish.of_member (List.all_eq_true.mp rfl) writes_false with ⟨members, rfl, hatVersion⟩
  have hback : ∀ y ns, members = ("version".toList, .str y) :: ns →
      ∀ s, HeldAt yajl node ["action".toList, "version".toList] s → y = s := by
    rintro y ns rfl
    exact h.version.eq rfl
  rcases ham.version.of_member hatVersion (List.all_eq_true.mp rfl) hback with
    ⟨hversion, members, rfl, hatEnd⟩
  rcases hatEnd.of_member (List.all_eq_true.mp rfl) (writes_ofInt _) with ⟨members, rfl, hatStart⟩
  rcases hatStart.of_member (List.all_eq_true.mp rfl) (writes_ofInt _) with ⟨members, rfl, hatNamespace⟩
  have hback : ∀ y ns, members = ("namespace".toList, .str y) :: ns →
      ∀ s, HeldAt yajl node ["user".toList, "namespace".toList, "name".toList] s → y = s := by
    rintro y ns rfl
    exact h.namespace_.eq rfl
  rcases ham.namespace_.of_member hatNamespace (List.all_eq_true.mp rfl) hback with ⟨hnamespace, _⟩
  exact ⟨⟨hactivationId, hname, hversion, hsubject, hnamespace⟩, rfl⟩

theorem transmissible_of_faithful {tree : Json.Tree} (ham : Copies yajl node record.am)
    (hparse : Json.parse (sent invokerId (completion uninit record istats res endTime)) = some tree)
    (h : Faithful yajl node istats (waitTimeOf record istats endTime) result tree) :
    Transmissible yajl node istats := by
  rcases Json.parse_eq_some_iff.mp hparse with ⟨u, hread, _⟩
  rw [sent, CompletionMessage.toJson_eq, ← List.append_nil (objectText _)] at hread
  rcases hread.of_objectText (List.all_eq_true.mp rfl) with ⟨transid, _, ms, rfl, htransid, hms⟩
  have hname : ∀ y vs, transid = .arr (.str y :: vs) → ∀ s, HeldName yajl node s → y = s := by
    rintro y vs rfl s hs
    rcases h.transidName s hs with ⟨ws, hws⟩
    cases hws
    rfl
  rcases ham.transidName.of_transid htransid hname with ⟨hplain, htransidName⟩
  rcases (TransactionId.writes hplain).of_reads (Json.stops_membersText _ _) htransid with
    ⟨rfl, hskip⟩
  rcases (hms.of_skip_eq hskip.symm).of_membersText (List.all_eq_true.mp rfl) with
    ⟨response, _, ns, rfl, hresponse, _⟩
  rcases holdsPlain_of_response ham h hresponse with
    ⟨⟨hactivationId, hname, hversion, hsubject, hnamespace⟩, hduration⟩
  refine ⟨htransidName, ?_, hactivationId, hname, hversion, hsubject, hnamespace, ?_⟩
  . intro x hx
    rcases h.transidId x hx with ⟨w, y, ws, hws, hy⟩
    cases hws
    rw [← hy, ← ham.transidId x hx]
    exact numberValue_ofNat _
  . rcases h.duration with ⟨x, hx, hvalue⟩
    cases hduration.symm.trans hx
    rw [numberValue_ofInt] at hvalue
    exact toInt_toInt64_iff.mp hvalue

end transmissible

variable {c c' : Controller} {promise : Nat} {cm : CompletionMessage}

/--
For an activation that a payload was made to and a reply to it with a JSON text, what is sent is valid and
gives back the payload's strings and the number in its `transid`, the result, the status, the duration and
the annotations just if the strings need no escapes and the numbers are not changed on the way.
-/
theorem faithful_iff (hyajl : Typed yajl) (h : Accepted yajl json node record.am)
    (hrecord : c.recordMap.find? istats.transactionId = some record)
    (hresult : Json.parse res = some result)
    (hcm : resolveActivation uninit c istats res endTime = (c', some (promise, cm)))
    (invokerId : UInt64) :
    (∃ tree, Json.parse (sent invokerId cm) = some tree
        ∧ Faithful yajl node istats (waitTimeOf record istats endTime) result tree)
      ↔
    Transmissible yajl node istats := by
  have ham := h.copies hyajl
  simp only [resolveActivation, hrecord] at hcm
  cases hcm
  constructor
  . rintro ⟨tree, hparse, hfaithful⟩
    exact transmissible_of_faithful ham hparse hfaithful
  . intro htransmissible
    exact ⟨_, (htransmissible.writes ham hresult).parse, htransmissible.faithful ham⟩

section example_

-- `{"transid":["t",7],"activationId":"aaaaaaaaaaaaaaaaaaaaaaaaaaaaaaaa","action":{"name":"s"}}`
def namedPayload (s : CString) : CString :=
  objectText [
    ("transid".toList, arrayText [quoted ['t'], CString.ofNat 7]),
    ("activationId".toList, quoted (List.replicate 32 'a')),
    ("action".toList, objectText [("name".toList, quoted s)])
  ]

def namedTree (name : CString) : Json.Tree :=
  .obj [
    ("transid".toList, .arr [.str ['t'], .num (CString.ofNat 7)]),
    ("activationId".toList, .str (List.replicate 32 'a')),
    ("action".toList, .obj [("name".toList, .str name)])
  ]

def namedRecord (name : CString) : ActivationRecord where
  promise := 0
  am := {
    transid := { name := ['t'], id := 7 }
    rootControllerIndex := { instance_ := 0, name := [] }
    activationId := List.replicate 32 'a'
    revision := []
    content := "\x7b\x7d".toList
    action := { path := [], name := CString.cstr name, version := [] }
    user := { subject := [], authkey := [], namespace_ := { name := [], uuid := [] } }
    blocking := false
  }
  start := 0

def namedController (name : CString) : Controller :=
  { Controller.new with recordMap := AList.insert 7 (namedRecord name) ∅ }

def exampleReply : InvocationStats where
  transactionId := 7
  functionId := 0
  argsSize := 2
  activationId := .filled 'a'
  exec := { runTime := 5, initTime := 1, status := false }

theorem parse_namedPayload {s : CString} {us : List Json.CodeUnit} (h : Json.Literal s us) :
    Json.parse (namedPayload s) = some (namedTree (Json.decode us)) := by
  apply Json.Writes.parse
  apply Json.writes_objectText
  have htransid : Writes (.arr [.str ['t'], .num (CString.ofNat 7)])
      (arrayText [quoted ['t'], CString.ofNat 7]) := by
    apply Json.writes_arrayText
    exact .cons (Json.writes_quoted (List.all_eq_true.mp rfl)) (.cons (writes_ofNat 7) .nil)
  have haction : Writes (.obj [("name".toList, .str (Json.decode us))])
      (objectText [("name".toList, quoted s)]) := by
    apply Json.writes_objectText
    exact .cons (Json.writesMember rfl (Json.writes_literal h)) .nil
  refine .cons (Json.writesMember rfl htransid) ?_
  refine .cons (Json.writesMember rfl (Json.writes_quoted (List.all_eq_true.mp rfl))) ?_
  exact .cons (Json.writesMember rfl haction) .nil

theorem accepted_namedPayload {s : CString} {us : List Json.CodeUnit} (h : Json.Literal s us) :
    Accepted pathYajl (namedPayload s) (namedTree (Json.decode us)) (namedRecord (Json.decode us)).am := by
  have hparse := parse_namedPayload h
  have htree : pathYajl.treeParse (CString.cstr (namedPayload s)) = some (namedTree (Json.decode us)) := by
    rw [cstr_of_parse hparse]
    exact pathYajl_finds.treeParse _ _ hparse
  refine ⟨htree, 1, testActivation [] [], ?_⟩
  rw [ActivationMessage.ofText, htree]
  rfl

theorem find_namedController (name : CString) :
    (namedController name).recordMap.find? exampleReply.transactionId = some (namedRecord name) :=
  UnorderedMap.find?_insert_self _ _ _

theorem resolveActivation_named (name : CString) :
    resolveActivation exampleCompletion (namedController name) exampleReply "\x7b\x7d".toList 0
      = ({ namedController name with recordMap := AList.erase 7 (namedController name).recordMap },
          some (0, completion exampleCompletion (namedRecord name) exampleReply "\x7b\x7d".toList 0)) := by
  rfl

theorem transmissible_namedTree {name : CString} (h : Plain name) :
    Transmissible pathYajl (namedTree name) exampleReply where
  transidName := by
    rintro s ⟨vs, hs⟩
    cases hs
    exact List.all_eq_true.mp rfl
  transidId := by
    rintro x ⟨v, vs, hx⟩
    cases hx
    have hseven : pathYajl.getInteger (.num (CString.ofNat 7)) = 7 := pathYajl_finds.getInteger 7
    rw [hseven]
    exact numberValue_ofNat 7
  activationId := by
    intro s hs
    cases hs
    exact List.all_eq_true.mp rfl
  name := by
    intro s hs
    cases hs
    exact h
  version := by
    intro s hs
    cases hs
  subject := by
    intro s hs
    cases hs
  namespace_ := by
    intro s hs
    cases hs
  duration := by decide

theorem faithful_iff_plainName :
    ∃ tree,
      Json.parse (sent 3
          (completion exampleCompletion (namedRecord "spin".toList) exampleReply "\x7b\x7d".toList 0))
        = some tree
        ∧ Faithful pathYajl (namedTree "spin".toList) exampleReply
            (waitTimeOf (namedRecord "spin".toList) exampleReply 0) (.obj []) tree := by
  have hplain : Plain "spin".toList := List.all_eq_true.mp rfl
  have haccepted := accepted_namedPayload (Json.literal_of_plain hplain)
  rw [Json.decode_map_byte] at haccepted
  exact (faithful_iff pathYajl_typed haccepted (find_namedController _) rfl
    (resolveActivation_named _) 3).mpr (transmissible_namedTree hplain)

-- the name `"`
theorem quotedName_not_faithful :
    namedPayload "\\\"".toList
        = ("\x7b\"transid\":[\"t\",7],\"activationId\":\"aaaaaaaaaaaaaaaaaaaaaaaaaaaaaaaa\","
          ++ "\"action\":\x7b\"name\":\"\\\"\"\x7d\x7d").toList
      ∧ Accepted pathYajl (namedPayload "\\\"".toList) (namedTree ['"']) (namedRecord ['"']).am
      ∧ (resolveActivation exampleCompletion (namedController ['"']) exampleReply "\x7b\x7d".toList 0).2
        = some (0, completion exampleCompletion (namedRecord ['"']) exampleReply "\x7b\x7d".toList 0)
      ∧ ¬ ∃ tree,
          Json.parse
              (sent 3 (completion exampleCompletion (namedRecord ['"']) exampleReply "\x7b\x7d".toList 0))
            = some tree
            ∧ Faithful pathYajl (namedTree ['"']) exampleReply
                (waitTimeOf (namedRecord ['"']) exampleReply 0) (.obj []) tree := by
  have hliteral : Json.Literal "\\\"".toList [.byte '"'] := .escape rfl .nil
  have haccepted := accepted_namedPayload hliteral
  refine ⟨rfl, haccepted, congrArg Prod.snd (resolveActivation_named _), ?_⟩
  rintro ⟨tree, hparse, h⟩
  have hplain := (transmissible_of_faithful (haccepted.copies pathYajl_typed) hparse h).name ['"'] rfl
  cases hplain '"' List.mem_cons_self

end example_

end Controller
end Seuss
