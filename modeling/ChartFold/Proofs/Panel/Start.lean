import ChartFold.Proofs.Encodings.Drawing
import ChartFold.Proofs.Panel.Charts

/-! What an operation starts with. Nothing is shown yet, so only its default look or its very first
fallback is merged onto the outputs, and a chart with requirements is bound just where these very
outputs meet them. -/
namespace ChartFold

theorem Fallback.find?_suits_empty (fallbacks : List Fallback) (inputs : List Datum) :
    fallbacks.find? (·.suits inputs .empty) = fallbacks.head? := by
  cases fallbacks with
  | nil => rfl
  | cons first rest =>
    have hsuits : first.suits inputs .empty := by
      cases hmark : first.inputMark <;> simp [suits, hmark]
    simp [hsuits]

namespace Profile
variable {profile : Profile} {chart : Chart}

/-- The look that the outputs get where nothing is shown yet: the default look or, with neither
chart nor default look, the first fallback. -/
def firstLook (profile : Profile) : Option Encoding :=
  profile.defaultLook.or
    (if profile.chart.isNone then profile.fallbacks.head?.map Fallback.encoding else none)

theorem outputEncoding_blank (profile : Profile) (inputs : List Datum) :
    profile.outputEncoding inputs .empty = profile.firstLook := by
  rw [outputEncoding, firstLook, fallbackEncoding, Fallback.find?_suits_empty, ungoverned]
  cases profile.defaultLook <;> cases profile.chart <;> rfl

end Profile

namespace Look
variable {profile : Profile} {flow : Flow} {chart : Chart}

end Look

namespace Panel
variable {rules : Rules} {profile : Profile}

end Panel

end ChartFold
