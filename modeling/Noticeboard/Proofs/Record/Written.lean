import Noticeboard.Proofs.Instant.Stamp
import Noticeboard.Proofs.Json.Shape
import Noticeboard.Proofs.Json.Text
import Noticeboard.Record.Codec

namespace Noticeboard

open Json Shape

theorem Instant.gives_toJson (i : Instant) : Reader.Gives ofJson i.toJson i := by
  intro medium
  simp only [ofJson, toJson, asString, bind, Except.bind, parse?_text]

theorem Style.gives_toJson (s : Style) : Reader.Gives ofJson s.toJson s :=
  gives_variant (by decide) (by cases s <;> decide)

theorem Purpose.gives_toJson (p : Purpose) : Reader.Gives ofJson p.toJson p :=
  gives_variant (by decide) (by cases p <;> decide)

theorem Action.gives_toJson (a : Action) : Reader.Gives ofJson a.toJson a := by
  refine Gives.read (?_ : shape.Gives _ (.mk a.title a.purpose a.hasRemoteInput)) (by simp)
  exact .seq (.seq (.map _ (gives_required rfl (gives_string a.title)))
    (gives_withDefault rfl a.purpose.gives_toJson))
    (gives_withDefault rfl (gives_bool a.hasRemoteInput))

theorem Progress.gives_toJson (p : Progress) : Reader.Gives ofJson p.toJson p := by
  refine Gives.read (?_ : shape.Gives _ (.mk p.max p.current p.indeterminate)) (by simp)
  exact .seq (.seq (.map _ (gives_required rfl (gives_uint32 p.max)))
    (gives_required rfl (gives_uint32 p.current)))
    (gives_withDefault rfl (gives_bool p.indeterminate))

section

variable {depth : Nat}

theorem Action.plain_toJson (a : Action) : Plain (depth + 1) a.toJson := by
  refine .obj ?_
  simp only [List.forall_mem_cons]
  exact ⟨.str _, .str _, .bool _, nofun⟩

theorem Progress.plain_toJson (p : Progress) : Plain (depth + 1) p.toJson := by
  refine .obj ?_
  simp only [List.forall_mem_cons]
  exact ⟨plain_uint32 _, plain_uint32 _, .bool _, nofun⟩

end

namespace Category

/-- Whether the category is the one that its name stands for. -/
def Canonical (c : Category) : Prop :=
  ofName c.name = c

theorem yields_canonical : Reader.Yields ofJson Canonical := by
  intro medium j c h
  obtain ⟨s, -, rfl⟩ := map_eq_ok.mp h
  rw [Canonical, name_ofName]

theorem Canonical.gives_toJson {c : Category} (h : c.Canonical) : Reader.Gives ofJson c.toJson c :=
  fun _ => congrArg Except.ok h

end Category

namespace Json

variable {α : Type} (name : String) (write : α → Json) (o : Option α)

@[simp]
theorem lookup_present (s : String) :
    (present name write o).lookup s = if s = name then o.map write else none := by
  cases o with
  | none => simp [present]
  | some a =>
    rw [present, List.lookup_cons, List.lookup_nil]
    by_cases h : s = name
    · rw [beq_iff_eq.mpr h, if_pos h, Option.map_some]
    · rw [beq_false_of_ne h, if_neg h]

theorem names_present : ((present name write o).map (·.1)).Sublist [name] := by
  cases o with
  | none => exact List.nil_sublist _
  | some a => exact List.Sublist.refl _

end Json

namespace Record

def Canonical (r : Record) : Prop :=
  ∀ c ∈ r.category, c.Canonical

theorem nodup_names (r : Record) : (r.members.map (·.1)).Nodup := by
  have hnames : (r.members.map (·.1)).Sublist ["key", "package", "tag", "id", "user", "groupKey",
      "isGroupSummary", "title", "text", "category", "style", "progress", "actions", "postTime",
      "ongoing", "foreground"] := by
    simp only [members, List.map_append]
    exact (((((List.Sublist.refl _).append (names_present "groupKey" _ _)).append
      (List.Sublist.refl _)).append (names_present "category" _ _)).append
      (List.Sublist.refl _)).append (names_present "progress" _ _) |>.append (List.Sublist.refl _)
  exact hnames.nodup (by decide)

theorem id_gives (r : Record) : RecordId.shape.Gives r.members r.id := by
  change RecordId.shape.Gives r.members
    (.mk r.id.key r.id.package r.id.tag r.id.number r.id.user)
  refine .seq (.seq (.seq (.seq (.map _ (gives_required ?_ (gives_string _)))
    (gives_required ?_ (gives_string _)))
    (gives_withDefault ?_ (gives_ofOption fun tag _ => ⟨gives_string tag, nofun⟩)))
    (gives_required ?_ (gives_int32 _)))
    (gives_withDefault ?_ (gives_int32 _))
  all_goals simp [members, RecordId.members, List.lookup_cons]

theorem shape_gives {r : Record} (hr : r.Canonical) :
    shape.Gives r.members fun id => { r with id } := by
  -- what the shape makes of the members is found by the rules and compared when it is known
  suffices h : ∃ ofId, shape.Gives r.members ofId ∧ ofId = fun id => { r with id } by
    obtain ⟨_, h, rfl⟩ := h
    exact h
  refine ⟨_, .seq (.seq (.seq (.seq (.seq (.seq (.seq (.seq (.seq (.seq (.map _
    (gives_present ?_ fun key _ => ⟨gives_string key, nofun⟩))
    (gives_withDefault ?_ (gives_bool r.isSummary)))
    (gives_withDefault ?_ (gives_string r.title)))
    (gives_withDefault ?_ (gives_string r.text)))
    (gives_present ?_ fun c hc => ⟨(hr c hc).gives_toJson, nofun⟩))
    (gives_withDefault ?_ r.style.gives_toJson))
    (gives_present ?_ fun p _ => ⟨p.gives_toJson, nofun⟩))
    (gives_withDefault ?_ (gives_list fun a _ => a.gives_toJson)))
    (gives_required ?_ r.postTime.gives_toJson))
    (gives_withDefault ?_ (gives_bool r.ongoing)))
    (gives_withDefault ?_ (gives_bool r.foreground)), rfl⟩
  all_goals simp [members, RecordId.members, List.lookup_append, List.lookup_cons]

theorem plain_members {depth : Nat} (r : Record) :
    ∀ member ∈ r.members, Plain (depth + 2) member.2 := by
  have htag : Plain (depth + 2) (ofOption .str r.id.tag) := plain_ofOption fun tag _ => .str tag
  have hactions : Plain (depth + 2) (.arr (r.actions.map Action.toJson)) :=
    plain_list fun a _ => a.plain_toJson
  simp only [members, RecordId.members, List.forall_mem_append, List.forall_mem_cons, and_assoc]
  exact ⟨.str _, .str _, htag, plain_int32 _, plain_int32 _, nofun,
    plain_present _ fun key _ => .str key, .bool _, .str _, .str _, nofun,
    plain_present _ fun c _ => .str (Category.name c), .str _, nofun,
    plain_present _ fun p _ => p.plain_toJson, hactions, .str _, .bool _, .bool _, nofun⟩

theorem plain_toJson {depth : Nat} (r : Record) : Plain (depth + 3) r.toJson :=
  .obj r.plain_members

theorem Canonical.gives_toJson {r : Record} (hr : r.Canonical) :
    Reader.Gives ofJson r.toJson r := by
  intro medium
  have hsound : (r.members.all fun member => shape.knows member.1 || member.2.isSound) = true := by
    refine List.all_eq_true.mpr fun member hmember => ?_
    have hplain : Plain 2 member.2 := r.plain_members member hmember
    change (_ || member.2.isSound) = true
    rw [hplain.isSound, Bool.or_true]
  refine (if_pos hsound).trans ?_
  rw [(shape_gives hr).ofMembers r.nodup_names,
    r.id_gives.ofMembers r.nodup_names]
  rfl

theorem shape_yields : shape.Yields fun ofId => ∀ id, (ofId id).Canonical := by
  have hcategory := yields_option Category.yields_canonical
  refine .any (.any (.any (.any (.any (.any (.seq (.any (.any (.any (.map (yields_true _) ?_))))
    (yields_withDefault hcategory nofun)))))))
  exact fun _ _ _ _ _ _ hcategory _ _ _ _ _ _ _ => hcategory

theorem yields_canonical : Reader.Yields ofJson Canonical := by
  intro medium j r h
  cases j with
  | obj members =>
    change (if _ then _ else _) = _ at h
    split at h
    · obtain ⟨ofId, hofId, h⟩ := bind_eq_ok.mp h
      obtain ⟨id, -, h⟩ := bind_eq_ok.mp h
      cases h
      exact shape_yields.ofMembers hofId id
    · cases h
  | _ => cases h

end Record

end Noticeboard
