import RepoInspector.Proofs.Model.DetailedRepository
import RepoInspector.Proofs.Record.Shapes

namespace RepoInspector
namespace Model

open Record

/-!
# The shapes of the models

Accounts, organizations and permissions are flat.  A repository has its owner
inside, and the details have an organization and two more repositories.
-/

namespace Account

def shape : Shape := .record (names fields) fun _ => .scalar

theorem codec_shaped : codec.Shaped shape := by
  have optionalText := Codec.Shaped.text.optional
  have shaped : ShapedFields fields fun _ => .scalar := .cons .text (.cons .unsigned
    (.cons optionalText (.cons optionalText (.cons optionalText .nil))))
  exact (shaped.record _ lawful_fields (by decide) distinct_names).through ofRow toRow

end Account

namespace Organization

def shape : Shape := .record (names fields) fun _ => .scalar

theorem codec_shaped : codec.Shaped shape := by
  have optionalText := Codec.Shaped.text.optional
  have shaped : ShapedFields fields fun _ => .scalar := .cons .text (.cons .unsigned
    (.cons optionalText (.cons optionalText (.cons optionalText (.cons optionalText
    (.cons optionalText .nil))))))
  exact (shaped.record _ lawful_fields (by decide) distinct_names).through ofRow toRow

end Organization

namespace Repository

/-- The shapes of a repository's members. -/
def memberShape (name : String) : Shape := if name = "owner" then Account.shape else .scalar

def shape : Shape := .record (names fields) memberShape

theorem shaped_fields : ShapedFields fields memberShape := by
  have optionalText := Codec.Shaped.text.optional
  have moment := Codec.Shaped.instant.optional
  exact .cons .unsigned (.cons .text (.cons .text (.cons optionalText (.cons .boolean
    (.cons .boolean (.cons .boolean (.cons Account.codec_shaped (.cons optionalText
    (.cons optionalText (.cons optionalText (.cons optionalText (.cons optionalText
    (.cons .unsigned (.cons .unsigned (.cons moment (.cons moment
    (.cons moment .nil)))))))))))))))))

theorem codec_shaped : codec.Shaped shape :=
  (shaped_fields.record _ lawful_fields (by decide) distinct_names).through ofRow toRow

end Repository

namespace Permissions

def shape : Shape := .record (names fields) fun _ => .scalar

theorem codec_shaped : codec.Shaped shape := by
  have shaped : ShapedFields fields fun _ => .scalar :=
    .cons .boolean (.cons .boolean (.cons .boolean .nil))
  exact (shaped.record _ lawful_fields (by decide) distinct_names).through ofRow toRow

end Permissions

theorem PermittedRepository.shaped_fields : ShapedFields fields fun _ => Permissions.shape :=
  .cons Permissions.codec_shaped.optional .nil

namespace DetailedRepository

/-- The shapes of the details. -/
def memberShape (name : String) : Shape :=
  if name = "organization" then Organization.shape
  else if name = "parent" ∨ name = "source" then Repository.shape
  else .scalar

theorem shaped_fields : ShapedFields fields memberShape := by
  have setting := Codec.Shaped.boolean.optional
  have repository := Repository.codec_shaped.optional
  have count := Codec.Shaped.unsigned.optional
  exact .cons setting (.cons setting (.cons setting (.cons Organization.codec_shaped.optional
    (.cons repository (.cons repository (.cons count (.cons count .nil)))))))

end DetailedRepository

end Model
end RepoInspector
