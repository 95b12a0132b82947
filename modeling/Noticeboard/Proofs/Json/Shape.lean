import Noticeboard.Json.Reader

namespace Noticeboard

variable {α β : Type}

namespace Reader

/-- Wherever `j` stands, `a` is read of it. -/
def Gives (read : Reader α) (j : Json) (a : α) : Prop :=
  ∀ medium, read medium j = .ok a

def Yields (read : Reader α) (P : α → Prop) : Prop :=
  ∀ medium j a, read medium j = .ok a → P a

end Reader

namespace Json

open Reader

theorem gives_bool (b : Bool) : Gives asBool (bool b) b :=
  fun _ => rfl

theorem gives_string (s : String) : Gives asString (str s) s :=
  fun _ => rfl

theorem gives_int {low high n : Int} (h : low ≤ n ∧ n < high) : Gives (asInt low high) (int n) n :=
  fun _ => if_pos h

theorem gives_int32 (n : Int32) : Gives asInt32 (int n.toInt) n := by
  intro medium
  have hn : Int32.minValue.toInt ≤ n.toInt ∧ n.toInt < Int32.maxValue.toInt + 1 :=
    ⟨n.le_toInt, n.toInt_lt⟩
  rw [asInt32, gives_int hn]
  exact congrArg _ n.ofInt_toInt

theorem gives_uint32 (n : UInt32) : Gives asUInt32 (nat n.toNat) n := by
  intro medium
  have hn : (0 : Int) ≤ n.toNat ∧ (n.toNat : Int) < UInt32.size :=
    ⟨Int.natCast_nonneg _, Int.ofNat_lt.mpr n.toNat_lt_size⟩
  rw [asUInt32, nat, gives_int hn]
  exact congrArg _ UInt32.ofNat_toNat

theorem gives_uint64 (n : UInt64) : Gives asUInt64 (nat n.toNat) n := by
  intro medium
  have hn : (0 : Int) ≤ n.toNat ∧ (n.toNat : Int) < UInt64.size :=
    ⟨Int.natCast_nonneg _, Int.ofNat_lt.mpr n.toNat_lt_size⟩
  rw [asUInt64, nat, gives_int hn]
  exact congrArg _ UInt64.ofNat_toNat

theorem mapM_map_ok {γ ε : Type} {read : γ → Except ε α} {write : α → γ} {as : List α}
    (h : ∀ a ∈ as, read (write a) = .ok a) : (as.map write).mapM read = .ok as := by
  induction as with
  | nil => rfl
  | cons a as ih =>
    rw [List.map_cons, List.mapM_cons, h a List.mem_cons_self,
      ih fun b hb => h b (List.mem_cons_of_mem a hb)]
    rfl

theorem gives_list {read : Reader α} {write : α → Json} {as : List α}
    (h : ∀ a ∈ as, Gives read (write a) a) : Gives (asList read) (arr (as.map write)) as :=
  fun medium => mapM_map_ok fun a ha => h a ha medium

theorem gives_none (read : Reader α) : Gives (asOption read) null none :=
  fun _ => rfl

theorem asOption_of_ne_null (read : Reader α) (medium : Medium) {j : Json} (hj : j ≠ null) :
    asOption read medium j = (read medium j).map some := by
  cases j with
  | null => exact absurd rfl hj
  | _ => rfl

theorem gives_some {read : Reader α} {j : Json} {a : α} (h : Gives read j a) (hj : j ≠ null) :
    Gives (asOption read) j (some a) := by
  intro medium
  rw [asOption_of_ne_null read medium hj, h medium]
  rfl

theorem gives_ofOption {read : Reader α} {write : α → Json} {o : Option α}
    (h : ∀ a ∈ o, Gives read (write a) a ∧ write a ≠ null) :
    Gives (asOption read) (ofOption write o) o := by
  cases o with
  | none => exact gives_none read
  | some a => exact gives_some (h a rfl).1 (h a rfl).2

theorem lookup_of_mem {members : List (String × α)} {name : String} {a : α}
    (hn : (members.map (·.1)).Nodup) (hm : (name, a) ∈ members) :
    members.lookup name = some a := by
  induction members with
  | nil => cases hm
  | cons m members ih =>
    rw [List.map_cons, List.nodup_cons] at hn
    rcases List.mem_cons.mp hm with rfl | hm
    · exact List.lookup_cons_self
    · have hne : name ≠ m.1 := fun h => hn.1 (h ▸ List.mem_map_of_mem hm)
      rw [List.lookup_cons, beq_false_of_ne hne]
      exact ih hn.2 hm

theorem lookup_eq_some_iff_mem {members : List (String × α)} {name : String} {a : α}
    (hn : (members.map (·.1)).Nodup) : members.lookup name = some a ↔ (name, a) ∈ members := by
  refine ⟨fun h => ?_, lookup_of_mem hn⟩
  obtain ⟨before, after, rfl, -⟩ := List.lookup_eq_some_iff.mp h
  exact List.mem_append_right before List.mem_cons_self

theorem gives_variant {all : List α} {name : α → String} (hn : (all.map name).Nodup) {a : α}
    (ha : a ∈ all) : Gives (asVariant (all.map fun a => (name a, a))) (str (name a)) a := by
  have hnames : ((all.map fun a => (name a, a)).map (·.1)).Nodup := by
    rwa [List.map_map]
  have hlookup := lookup_of_mem hnames (List.mem_map_of_mem ha)
  have hname : ofName (all.map fun a => (name a, a)) (name a) = .ok a := by
    rw [ofName, hlookup]
  intro medium
  cases medium <;> exact hname

end Json

namespace Shape

/-- Among these members there is nothing wrong, and `a` is what they make. -/
structure Gives (shape : Shape α) (members : List (String × Json)) (a : α) : Prop where
  check : ∀ field ∈ shape.fields, ∀ j, members.lookup field.name = some j →
    Reader.Gives field.check j ()
  build : ∀ medium absent, shape.build ⟨medium, members, absent⟩ = .ok a

section

variable {members : List (String × Json)} {name : String}

theorem gives_pure (a : α) : (pure a : Shape α).Gives members a :=
  ⟨nofun, fun _ _ => rfl⟩

theorem Gives.map {x : Shape α} {a : α} (f : α → β) (h : x.Gives members a) :
    (f <$> x).Gives members (f a) where
  check := h.check
  build medium absent := by
    rw [build_map, h.build]
    rfl

theorem Gives.seq {f : Shape (α → β)} {x : Shape α} {g : α → β} {a : α}
    (hf : f.Gives members g) (hx : x.Gives members a) : (f <*> x).Gives members (g a) where
  check field hfield := (List.mem_append.mp hfield).elim (hf.check field) (hx.check field)
  build medium absent := by
    rw [build_seq, hf.build, hx.build]
    rfl

theorem field_check {read : Reader α} {j : Json} {a : α} (h : Reader.Gives read j a) :
    Reader.Gives (field name read).check j () := by
  intro medium
  change (read medium j).map _ = _
  rw [h medium]
  rfl

variable {read : Reader α} {j : Json} {a : α}

theorem gives_required (hm : members.lookup name = some j) (hj : Reader.Gives read j a) :
    (required name read).Gives members a where
  check := by
    intro field hfield j' hj'
    obtain rfl := List.mem_singleton.mp hfield
    obtain rfl := Option.some.inj (hm.symm.trans hj')
    exact field_check hj
  build medium absent := by
    simp only [required, hm]
    exact hj medium

theorem gives_withDefault {default : α} (hm : members.lookup name = some j)
    (hj : Reader.Gives read j a) : (withDefault name default read).Gives members a where
  check := (gives_required hm hj).check
  build medium absent := by
    simp only [withDefault, hm]
    exact hj medium

theorem gives_default (default : α) (hm : members.lookup name = none) :
    (withDefault name default read).Gives members default where
  check := by
    intro field hfield j' hj'
    obtain rfl := List.mem_singleton.mp hfield
    cases hm.symm.trans hj'
  build medium absent := by
    simp only [withDefault, hm]

theorem gives_present {write : α → Json} {o : Option α} (hm : members.lookup name = o.map write)
    (h : ∀ a ∈ o, Reader.Gives read (write a) a ∧ write a ≠ .null) :
    (optional name read).Gives members o := by
  cases o with
  | none => exact gives_default none hm
  | some a => exact gives_withDefault hm (Json.gives_some (h a rfl).1 (h a rfl).2)

end

theorem scan_eq_ok {medium : Medium} {fields : List Field} {met : List String}
    {members : List (String × Json)} (hn : (members.map (·.1)).Nodup)
    (hmet : ∀ member ∈ members, member.1 ∉ met)
    (h : ∀ field ∈ fields, ∀ j, (field.name, j) ∈ members → field.check medium j = .ok ()) :
    scan medium fields met members = .ok () := by
  induction members generalizing met with
  | nil => rfl
  | cons member members ih =>
    obtain ⟨name, value⟩ := member
    rw [List.map_cons, List.nodup_cons] at hn
    have hrest field hfield j hj := h field hfield j (List.mem_cons_of_mem _ hj)
    have hlater (m) (hm : m ∈ members) : m.1 ∉ met := hmet m (List.mem_cons_of_mem _ hm)
    rw [scan]
    split
    · exact ih hn.2 hlater hrest
    · next field hfind =>
      have hname : field.name = name := by simpa using List.find?_some hfind
      have hcheck := h field (List.mem_of_find?_eq_some hfind) value (hname ▸ List.mem_cons_self)
      rw [if_neg (hmet _ List.mem_cons_self), hcheck]
      refine ih hn.2 (fun m hm hin => ?_) hrest
      rcases List.mem_cons.mp hin with heq | hin
      · exact hn.1 (List.mem_map.mpr ⟨m, hm, heq⟩)
      · exact hlater m hm hin

variable {shape : Shape α} {members : List (String × Json)} {a : α}

theorem Gives.ofMembers (h : shape.Gives members a) (hn : (members.map (·.1)).Nodup)
    (medium : Medium) : shape.ofMembers medium members = .ok a := by
  have hscan : scan medium shape.fields [] members = .ok () :=
    scan_eq_ok hn (fun _ _ => List.not_mem_nil) fun field hfield j hj =>
      h.check field hfield j (Json.lookup_of_mem hn hj) medium
  rw [Shape.ofMembers, hscan]
  exact h.build medium _

theorem Gives.read (h : shape.Gives members a) (hn : (members.map (·.1)).Nodup) :
    Reader.Gives shape.read (.obj members) a :=
  h.ofMembers hn

end Shape

theorem bind_eq_ok {ε : Type} {x : Except ε α} {f : α → Except ε β} {b : β} :
    x >>= f = .ok b ↔ ∃ a, x = .ok a ∧ f a = .ok b := by
  cases x with
  | error e => exact ⟨nofun, fun ⟨_, h, _⟩ => nomatch h⟩
  | ok a => exact ⟨fun h => ⟨a, rfl, h⟩, fun ⟨_, ha, h⟩ => by cases ha; exact h⟩

theorem map_eq_ok {ε : Type} {x : Except ε α} {f : α → β} {b : β} :
    x.map f = .ok b ↔ ∃ a, x = .ok a ∧ f a = b := by
  cases x with
  | error e => exact ⟨nofun, fun ⟨_, h, _⟩ => nomatch h⟩
  | ok a => simp [Except.map]

namespace Json

open Reader

variable {read : Reader α} {P : α → Prop}

theorem forall_mem_of_mapM_ok {γ ε : Type} {f : γ → Except ε α} (hf : ∀ c a, f c = .ok a → P a)
    {cs : List γ} {as : List α} (h : cs.mapM f = .ok as) : ∀ a ∈ as, P a := by
  induction cs generalizing as with
  | nil =>
    cases h
    exact nofun
  | cons c cs ih =>
    rw [List.mapM_cons] at h
    obtain ⟨a, ha, h⟩ := bind_eq_ok.mp h
    obtain ⟨rest, hrest, h⟩ := bind_eq_ok.mp h
    cases h
    exact List.forall_mem_cons.mpr ⟨hf c a ha, ih hrest⟩

theorem yields_list (h : Yields read P) : Yields (asList read) fun as => ∀ a ∈ as, P a := by
  intro medium j as has
  cases j with
  | arr items => exact forall_mem_of_mapM_ok (h medium) has
  | _ => cases has

theorem yields_option (h : Yields read P) : Yields (asOption read) fun o => ∀ a ∈ o, P a := by
  intro medium j o ho
  by_cases hj : j = null
  · subst hj
    cases ho
    exact nofun
  · rw [asOption_of_ne_null read medium hj] at ho
    obtain ⟨a, ha, rfl⟩ := map_eq_ok.mp ho
    intro b hb
    obtain rfl := Option.mem_some_iff.mp hb
    exact h medium j _ ha

end Json

namespace Shape

def Yields (shape : Shape α) (P : α → Prop) : Prop :=
  ∀ found a, shape.build found = .ok a → P a

variable {P : α → Prop} {Q : β → Prop}

theorem yields_true (x : Shape α) : x.Yields fun _ => True :=
  fun _ _ _ => trivial

theorem Yields.map {f : α → β} {x : Shape α} (hx : x.Yields P) (h : ∀ a, P a → Q (f a)) :
    (f <$> x).Yields Q := by
  intro found b hb
  rw [build_map] at hb
  obtain ⟨a, ha, rfl⟩ := map_eq_ok.mp hb
  exact h a (hx found a ha)

theorem Yields.seq {f : Shape (α → β)} {x : Shape α}
    (hf : f.Yields fun g => ∀ a, P a → Q (g a)) (hx : x.Yields P) : (f <*> x).Yields Q := by
  intro found b hb
  obtain ⟨g, hg, hb⟩ := bind_eq_ok.mp hb
  obtain ⟨a, ha, hb⟩ := bind_eq_ok.mp hb
  cases hb
  exact hf found g hg a (hx found a ha)

theorem Yields.any {f : Shape (α → β)} {x : Shape α} (hf : f.Yields fun g => ∀ a, Q (g a)) :
    (f <*> x).Yields Q :=
  .seq (fun found g hg a _ => hf found g hg a) (yields_true x)

theorem yields_required {name : String} {read : Reader α} (h : Reader.Yields read P) :
    (required name read).Yields P := by
  intro found a ha
  simp only [required] at ha
  split at ha
  · exact h _ _ _ ha
  · cases ha

theorem yields_withDefault {name : String} {default : α} {read : Reader α}
    (h : Reader.Yields read P) (hdefault : P default) :
    (withDefault name default read).Yields P := by
  intro found a ha
  simp only [withDefault] at ha
  split at ha
  · exact h _ _ _ ha
  · cases ha
    exact hdefault

theorem Yields.ofMembers {shape : Shape α} (h : shape.Yields P) {medium : Medium}
    {members : List (String × Json)} {a : α} (ha : shape.ofMembers medium members = .ok a) :
    P a := by
  obtain ⟨_, _, ha⟩ := bind_eq_ok.mp ha
  exact h _ _ ha

theorem Yields.ofItems {shape : Shape α} (h : shape.Yields P) {medium : Medium}
    {items : List Json} {a : α} (ha : shape.ofItems medium items = .ok a) : P a := by
  obtain ⟨_, _, ha⟩ := bind_eq_ok.mp ha
  obtain ⟨b, hb, ha⟩ := bind_eq_ok.mp ha
  split at ha
  · cases ha
    exact h _ _ hb
  · cases ha

theorem Yields.read {shape : Shape α} (h : shape.Yields P) : Reader.Yields shape.read P := by
  intro medium j a ha
  unfold Shape.read at ha
  split at ha
  · exact h.ofMembers ha
  · exact h.ofItems ha
  · cases ha

end Shape

end Noticeboard
