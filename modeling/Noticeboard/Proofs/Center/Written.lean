import Noticeboard.Center.Event
import Noticeboard.Config
import Noticeboard.Proofs.Record.Written
import Std.Data.ExtTreeMap.Lemmas

namespace Noticeboard

open Json Shape

theorem HeadsUpSettings.gives_toJson (s : HeadsUpSettings) : Reader.Gives ofJson s.toJson s := by
  refine Gives.read (?_ : shape.Gives _ (.mk s.enabled s.durationMs)) (by simp)
  exact .seq (.map _ (gives_withDefault rfl (gives_bool s.enabled)))
    (gives_withDefault rfl (gives_uint64 s.durationMs))

namespace Config

def Canonical (c : Config) : Prop :=
  ∀ category ∈ c.neverShare, category.Canonical

theorem Canonical.gives_toJson {c : Config} (h : c.Canonical) : Reader.Gives ofJson c.toJson c := by
  refine Gives.read (?_ : shape.Gives _ (.mk c.groupNotifications c.neverShare c.showLessImportant
    c.filterMedia c.headsUp)) (by simp)
  exact .seq (.seq (.seq (.seq (.map _ (gives_withDefault rfl (gives_bool c.groupNotifications)))
    (gives_withDefault rfl (gives_list fun category hc => (h category hc).gives_toJson)))
    (gives_withDefault rfl (gives_bool c.showLessImportant)))
    (gives_withDefault rfl (gives_bool c.filterMedia)))
    (gives_withDefault rfl c.headsUp.gives_toJson)

theorem yields_canonical : Reader.Yields ofJson Canonical := by
  have hdefault : ∀ category ∈ default.neverShare, category.Canonical := by
    unfold Category.Canonical
    decide
  have hshape : shape.Yields Canonical := by
    refine .any (.any (.any (.seq (.map (yields_true _) ?_)
      (yields_withDefault (yields_list Category.yields_canonical) hdefault))))
    exact fun _ _ _ hcategories _ _ _ => hcategories
  exact hshape.read

theorem plain_toJson {depth : Nat} (c : Config) : Plain (depth + 2) c.toJson := by
  have hheadsUp : Plain (depth + 1) c.headsUp.toJson := by
    refine .obj ?_
    simp only [List.forall_mem_cons]
    exact ⟨.bool _, plain_uint64 _, nofun⟩
  refine .obj ?_
  simp only [List.forall_mem_cons]
  exact ⟨.bool _, plain_list fun category _ => .str category.name, .bool _, .bool _, hheadsUp,
    nofun⟩

end Config

theorem Importance.gives_toJson (i : Importance) : Reader.Gives ofJson i.toJson i :=
  gives_variant (by decide) (by cases i <;> decide)

theorem Placement.gives_toJson (p : Placement) : Reader.Gives ofJson p.toJson p := by
  refine Gives.read (?_ : shape.Gives _ (.mk p.importance p.rank)) (by simp)
  exact .seq (.map _ (gives_required rfl p.importance.gives_toJson))
    (gives_required rfl (gives_int32 p.rank))

theorem Placement.plain_toJson {depth : Nat} (p : Placement) : Plain (depth + 1) p.toJson := by
  refine .obj ?_
  simp only [List.forall_mem_cons]
  exact ⟨.str _, plain_int32 _, nofun⟩

namespace Ranking

theorem get?_ofList {places : List (String × Placement)} (hn : (places.map (·.1)).Nodup)
    (key : String) : (ofList places).get? key = places.lookup key := by
  have hfrom (r : Ranking) :
      (places.foldl (fun r place => r.insert place.1 place.2) r).get? key =
        (places.lookup key).or (r.get? key) := by
    induction places generalizing r with
    | nil => rfl
    | cons place places ih =>
      obtain ⟨k, p⟩ := place
      rw [List.map_cons, List.nodup_cons] at hn
      rw [List.foldl_cons, ih hn.2, get?_insert, List.lookup_cons]
      by_cases hk : key = k
      · subst hk
        have hnone : places.lookup key = none :=
          List.lookup_eq_none_iff.mpr fun place hplace =>
            bne_iff_ne.mpr fun heq => hn.1 (List.mem_map.mpr ⟨place, hplace, heq.symm⟩)
        rw [if_pos rfl, hnone, BEq.rfl]
        rfl
      · rw [if_neg (Ne.symm hk), beq_false_of_ne hk]
  refine (hfrom empty).trans ?_
  rw [get?_empty, Option.or_none]

variable {r : Ranking} {places : List (String × Placement)}

theorem ofList_of_perm (h : places.Perm r.toList) : ofList places = r := by
  have hkeys : (r.toList.map (·.1)).Nodup := by
    rw [toList, Std.ExtTreeMap.map_fst_toList_eq_keys]
    exact Std.ExtTreeMap.nodup_keys
  have hn : (places.map (·.1)).Nodup := (h.map _).nodup_iff.mpr hkeys
  refine ext_get? fun key => Option.ext fun p => ?_
  rw [get?_ofList hn, lookup_eq_some_iff_mem hn, h.mem_iff]
  exact Std.ExtTreeMap.mem_toList_iff_getElem?_eq_some

def Lists (r : Ranking) (members : List (String × Json)) : Prop :=
  ∃ places : List (String × Placement), places.Perm r.toList ∧
    members = places.map fun (key, p) => (key, p.toJson)

theorem lists_members (r : Ranking) : r.Lists (r.toList.map fun (key, p) => (key, p.toJson)) :=
  ⟨r.toList, .refl _, rfl⟩

theorem Lists.gives {members : List (String × Json)} (h : r.Lists members) :
    Reader.Gives ofJson (.obj members) r := by
  obtain ⟨places, hperm, rfl⟩ := h
  intro medium
  have hread (key : String) (p : Placement) :
      (do return (key, ← Placement.ofJson medium p.toJson) : Except ReadError _) =
        .ok (key, p) := by
    rw [p.gives_toJson medium]
    rfl
  rw [ofJson, mapM_map_ok fun (key, p) _ => hread key p]
  exact congrArg Except.ok (ofList_of_perm hperm)

theorem Lists.plain {depth : Nat} {members : List (String × Json)} (h : r.Lists members) :
    Plain (depth + 2) (.obj members) := by
  obtain ⟨places, -, rfl⟩ := h
  exact .obj (List.forall_mem_map.mpr fun place _ => place.2.plain_toJson)

end Ranking

namespace Event

def Canonical : Event → Prop
  | posted record _ => record.Canonical
  | _ => True

/-- How an event may be written: the places of a ranking stand in any order. -/
inductive Written : Event → Json → Prop where
  | inOrder (e : Event) : Written e e.toJson
  | posted (record : Record) {ranking : Ranking} {members : List (String × Json)}
    (h : ranking.Lists members) : Written (posted record (some ranking))
      (ofType "posted" [("record", record.toJson), ("ranking", .obj members)])
  | rankingUpdated {ranking : Ranking} {members : List (String × Json)}
    (h : ranking.Lists members) :
    Written (rankingUpdated ranking) (ofType "rankingUpdated" [("ranking", .obj members)])

variable {depth : Nat}

theorem gives_ofType {type : String} {shape : Shape Event} {members : List (String × Json)}
    {e : Event} (htype : shapes.lookup type = some shape)
    (h : shape.Gives (("type", .str type) :: members) e)
    (hn : ((("type", Json.str type) :: members).map (·.1)).Nodup)
    (hplain : Plain 4 (ofType type members)) : Reader.Gives ofJson (ofType type members) e := by
  intro medium
  have hshape : typeShape.Gives (("type", .str type) :: members) shape := by
    refine gives_required List.lookup_cons_self fun medium => ?_
    change Json.ofName shapes type = _
    rw [Json.ofName, htype]
  rw [ofType] at hplain ⊢
  rw [ofJson, hplain.isSound, if_pos rfl, hshape.ofMembers hn]
  -- the type has been read where the event stands, its members are read after they were put aside
  exact h.ofMembers hn .buffer

theorem yields_shapes : ∀ entry ∈ shapes, entry.2.Yields Canonical := by
  simp only [shapes, List.forall_mem_cons]
  refine ⟨?_, ?_, ?_, ?_, ?_, ?_, nofun⟩
  · refine .any (.map (yields_required Record.yields_canonical) ?_)
    exact fun _ hrecord _ => hrecord
  · exact .map (yields_true _) fun _ _ => trivial
  · exact .map (yields_true _) fun _ _ => trivial
  · exact .map (yields_true _) fun _ _ => trivial
  · exact .map (yields_true _) fun _ _ => trivial
  · rintro _ _ ⟨⟩
    trivial

theorem yields_shapeOfType : Reader.Yields shapeOfType fun shape => shape.Yields Canonical := by
  intro medium j shape h
  obtain ⟨type, -, h⟩ := bind_eq_ok.mp h
  unfold Json.ofName at h
  split at h
  · next hlookup =>
    cases h
    obtain ⟨before, after, hshapes, -⟩ := List.lookup_eq_some_iff.mp hlookup
    exact yields_shapes (type, shape) (hshapes ▸ List.mem_append_right before List.mem_cons_self)
  · cases h

theorem yields_canonical : Reader.Yields ofJson Canonical := by
  intro medium j e h
  unfold ofJson at h
  split at h
  · split at h
    · obtain ⟨shape, hshape, h⟩ := bind_eq_ok.mp h
      have hyields : typeShape.Yields fun shape => shape.Yields Canonical :=
        yields_required yields_shapeOfType
      exact (hyields.ofMembers hshape).ofMembers h
    · cases h
    · obtain ⟨shape, hshape, h⟩ := bind_eq_ok.mp h
      exact (yields_shapeOfType _ _ _ hshape).ofItems h
    · cases h
  · cases h

theorem plain_posted (record : Record) {ranking : Json} (h : Plain (depth + 3) ranking) :
    Plain (depth + 4) (ofType "posted" [("record", record.toJson), ("ranking", ranking)]) := by
  refine .obj ?_
  simp only [List.forall_mem_cons]
  exact ⟨.str _, record.plain_toJson, h, nofun⟩

theorem gives_posted {record : Record} (hrecord : record.Canonical) {ranking : Option Ranking}
    {j : Json} (h : Reader.Gives (asOption Ranking.ofJson) j ranking) (hplain : Plain 3 j) :
    Reader.Gives ofJson (ofType "posted" [("record", record.toJson), ("ranking", j)])
      (posted record ranking) := by
  refine gives_ofType rfl ?_ (by simp) (plain_posted record hplain)
  exact .seq (.map _ (gives_required rfl hrecord.gives_toJson)) (gives_withDefault rfl h)

theorem plain_ofType_single (type name : String) {j : Json} (h : Plain (depth + 3) j) :
    Plain (depth + 4) (ofType type [(name, j)]) := by
  refine .obj ?_
  simp only [List.forall_mem_cons]
  exact ⟨.str _, h, nofun⟩

theorem Written.plain {e : Event} {j : Json} (h : e.Written j) : Plain (depth + 4) j := by
  cases h with
  | inOrder =>
    cases e with
    | posted record ranking =>
      exact plain_posted record (plain_ofOption fun r _ => r.lists_members.plain)
    | removed key => exact plain_ofType_single _ _ (.str key)
    | rankingUpdated ranking => exact plain_ofType_single _ _ ranking.lists_members.plain
    | markSeen keys => exact plain_ofType_single _ _ (plain_list fun key _ => .str key)
    | toggleMute key => exact plain_ofType_single _ _ (.str key)
    | reset => exact .obj (List.forall_mem_singleton.mpr (.str _))
  | posted record h => exact plain_posted record h.plain
  | rankingUpdated h => exact plain_ofType_single _ _ h.plain

theorem Written.gives {e : Event} {j : Json} (h : e.Written j) (he : e.Canonical) :
    Reader.Gives ofJson j e := by
  have hplain : Plain 4 j := h.plain
  cases h with
  | inOrder =>
    cases e with
    | posted record ranking =>
      refine gives_posted he (gives_ofOption fun r _ => ⟨r.lists_members.gives, nofun⟩) ?_
      exact plain_ofOption fun r _ => r.lists_members.plain
    | removed key =>
      exact gives_ofType rfl (.map _ (gives_required rfl (gives_string key))) (by simp) hplain
    | rankingUpdated ranking =>
      exact gives_ofType rfl (.map _ (gives_required rfl ranking.lists_members.gives)) (by simp)
        hplain
    | markSeen keys =>
      have hkeys := gives_list fun key (_ : key ∈ keys) => gives_string key
      exact gives_ofType rfl (.map _ (gives_required rfl hkeys)) (by simp) hplain
    | toggleMute key =>
      exact gives_ofType rfl (.map _ (gives_required rfl (gives_string key))) (by simp) hplain
    | reset => exact gives_ofType rfl (gives_pure _) (by simp) hplain
  | posted record h => exact gives_posted he (gives_some h.gives nofun) h.plain
  | rankingUpdated h =>
    exact gives_ofType rfl (.map _ (gives_required rfl h.gives)) (by simp) hplain

end Event

namespace Reader

variable {α : Type}

/-- Once a value has been read, whatever is written of it is read as that value again, wherever it
stands and from its text. -/
def Recovers (read : Reader α) (Writes : α → Json → Prop) : Prop :=
  ∀ medium j a, read medium j = .ok a → ∀ written, Writes a written →
    (∀ medium, read medium written = .ok a) ∧ ofText read written.text = .ok a

theorem Gives.ofText {read : Reader α} {j : Json} {a : α} (h : Gives read j a)
    (hplain : Plain maxDepth j) : Reader.ofText read j.text = .ok a := by
  rw [Reader.ofText, hplain.parse?_text]
  dsimp only
  rw [h .text]
  rfl

end Reader

/-- Once anything has been read as an event, a record or a configuration, what is written of it is
read as the same again. A category keeps the name that it was read of. -/
theorem recovers_written :
    Reader.Recovers Event.ofJson Event.Written ∧
    Reader.Recovers Record.ofJson (fun r j => r.toJson = j) ∧
    Reader.Recovers Config.ofJson (fun c j => c.toJson = j) ∧
    ∀ medium s, ∃ c, Category.ofJson medium (.str s) = .ok c ∧ c.toJson = .str s := by
  refine ⟨?_, ?_, ?_, ?_⟩
  · intro medium j e h written hwritten
    have hgives := hwritten.gives (Event.yields_canonical medium j e h)
    exact ⟨hgives, hgives.ofText hwritten.plain⟩
  · rintro medium j r h _ rfl
    have hgives := (Record.yields_canonical medium j r h).gives_toJson
    exact ⟨hgives, hgives.ofText r.plain_toJson⟩
  · rintro medium j c h _ rfl
    have hgives := (Config.yields_canonical medium j c h).gives_toJson
    exact ⟨hgives, hgives.ofText c.plain_toJson⟩
  · exact fun medium s => ⟨_, rfl, congrArg Json.str (Category.name_ofName s)⟩

/-- A posting with an unknown member, a tag that is null, a category that no rule mentions, a time
of day in a zone and a ranking that is not in order. -/
def reminderPosted : Json :=
  .obj [("type", .str "posted"), ("record", .obj [("key", .str "b"), ("package", .str "clock"),
    ("tag", .null), ("id", .int (-3)), ("category", .str "reminder"), ("colour", .int 7),
    ("postTime", .str "2016-12-31 23:59:60.50 +01:00")]), ("ranking", .obj [
      ("b", .obj [("importance", .str "high"), ("rank", .int 1)]),
      ("a", .obj [("rank", .int 0), ("importance", .str "low")])])]

theorem read_reminderPosted : ∃ e, Event.ofJson .text reminderPosted = .ok e ∧
    Event.ofJson .tree e.toJson = .ok e ∧ Reader.ofText Event.ofJson e.toJson.text = .ok e := by
  have hread : ∃ e, Event.ofJson .text reminderPosted = .ok e := ⟨_, rfl⟩
  obtain ⟨e, he⟩ := hread
  have h := recovers_written.1 .text reminderPosted e he e.toJson (.inOrder e)
  exact ⟨e, he, h.1 .tree, h.2⟩

end Noticeboard
