import Fixture.Proofs.Calendar.Stamp
import Fixture.Proofs.Draft.Encoding
import Fixture.Proofs.Session.Numbers
import Fixture.Store.Record

/-!
Encoding of records. A record is read back from its own text if its times and its values are, and if
it is not nested too deep.
-/

namespace Fixture

open Json
open Number (Bounded)

theorem Json.Decoder.accepts_time {text : String} {t : Timestamp}
    (read : Timestamp.ofText text = .ok t) : Decoder.time.Accepts (.str text) t := by
  have decoded (origin : Origin) : time origin (.ofJson (.str text)) = .ok t := by
    rw [Document.ofJson]
    simp only [time, ofFault, Except.mapError, bind, Except.bind, read]
  intro origin w arranged
  cases arranged <;> exact decoded origin

def newYear : Timestamp := ⟨19723, 0, 0⟩

theorem ordinary_newYear : newYear.HasFourDigitYear :=
  ⟨by decide, by decide, by decide, by decide⟩

theorem newYear_read : Timestamp.ofText newYear.toText = .ok newYear := rfl

namespace Record

variable {r : Record}

def ReadsBack (r : Record) : Prop := decode.ofText r.encode.pretty = .ok r

structure TimesRead (r : Record) : Prop where
  createdAt : Timestamp.ofText r.createdAt.toText = .ok r.createdAt
  updatedAt : Timestamp.ofText r.updatedAt.toText = .ok r.updatedAt

theorem accepts (times : r.TimesRead) :
    decode.Accepts r.encode { r with modules := r.modules.alter stored? } := by
  refine Decoder.accepts_record (by simp [Distinct]) fun p offers => ?_
  rw [offers.required "id" (Decoder.accepts_text r.id),
    offers.required "pathToProject" (Decoder.accepts_text r.pathToProject),
    offers.required "fileId" (Decoder.accepts_text r.fileId),
    offers.required "functionId" (Decoder.accepts_text r.functionId),
    offers.withDefault "customName" (Decoder.accepts_text r.customName),
    offers.withDefault "moduleData" r.modules.accepts,
    offers.required "createdAt" (Decoder.accepts_time times.createdAt),
    offers.required "updatedAt" (Decoder.accepts_time times.updatedAt)]
  · rfl
  all_goals simp

theorem rereads (values : r.modules.Values (Numbers Bounded)) :
    Rereads r.encode (encode { r with modules := r.modules.alter reread? }) :=
  .obj (.cons _ (.str _) (.cons _ (.str _) (.cons _ (.str _) (.cons _ (.str _) (.cons _ (.str _)
    (.cons _ (Modules.rereads values) (.cons _ (.str _) (.cons _ (.str _) .nil))))))))

/-- A record is read back if all that it holds comes back from its text. -/
theorem readsBack (times : r.TimesRead) (values : r.modules.Values (Numbers Bounded))
    (reread : r.modules.alter reread? = r.modules) (stored : r.modules.alter stored? = r.modules)
    (shallow : r.encode.depth ≤ Document.maxDepth) : r.ReadsBack := by
  have rereads := Record.rereads values
  rw [reread] at rereads
  rw [ReadsBack, Decoder.ofText, Document.ofText_pretty rereads.bounded, rereads.read,
    Document.nested_eq_ofJson (by rwa [Nat.zero_add])]
  simp only [accepts times .text _ .written, stored]
  rfl

theorem readsBack_of_bare (times : r.TimesRead) (bare : r.modules = {}) : r.ReadsBack := by
  obtain ⟨id, pathToProject, fileId, functionId, customName, modules, createdAt, updatedAt⟩ := r
  subst bare
  refine readsBack times ⟨?_, ?_⟩ rfl rfl (show 2 ≤ Document.maxDepth by decide)
  · rintro _ ⟨⟩
  · rintro _ ⟨⟩

def plain (id customName : String) : Record where
  id := id
  pathToProject := "/p"
  fileId := "a.js"
  functionId := "f"
  customName := customName
  createdAt := newYear
  updatedAt := newYear

theorem id_plain (id customName : String) : (plain id customName).id = id := rfl

theorem readsBack_plain (id customName : String) : (plain id customName).ReadsBack :=
  readsBack_of_bare ⟨newYear_read, newYear_read⟩ rfl

end Record

end Fixture
