import Anadil.Text.Category

/-! # Compatibility characters

Characters of Unicode 15 with a compatibility decomposition: variants that normal form KC replaces by
other characters and normal form C keeps. -/

namespace Anadil.Text

/-- The code points with a compatibility decomposition, in order. -/
def compatibilities : Ranges := .ofGaps [
    160, 1, 7, 1, 1, 1, 4, 1, 2, 4, 2, 3, 1, 3, 115, 2, 11, 2, 8, 1, 53, 1, 68, 9, 36, 3, 188, 9, 31, 6, 2, 5, 149, 1,
    9, 1, 75, 3, 2, 2, 25, 3, 1, 2, 3, 1, 397, 1, 237, 4, 1978, 1, 127, 1, 40, 2, 46, 1, 106, 1, 1, 1, 386, 1, 3119,
    3, 1, 11, 1, 18, 1, 28, 13, 1, 34, 37, 218, 1, 290, 1, 1, 2, 61, 1, 3, 9, 6, 1, 5, 1, 12, 3, 8, 1, 3, 2, 1, 2, 4,
    1, 1, 1, 8, 3, 13, 1, 7, 1, 16, 2, 2, 27, 1, 13, 11, 1, 87, 4, 1, 3, 1, 11, 1, 2, 2, 5, 2, 3, 1, 1, 3, 1, 3, 2, 1,
    3, 1, 7, 1, 6, 4, 5, 6, 48, 9, 1, 162, 2, 1, 2, 559, 139, 1313, 1, 103, 3, 517, 2, 241, 1, 303, 1, 83, 1, 12, 214,
    42, 1, 53, 1, 1, 3, 96, 2, 2, 1, 95, 1, 49, 94, 3, 14, 96, 31, 1, 40, 8, 47, 1, 384, 29340, 2, 210, 1, 129, 3, 3,
    2, 866, 4, 9, 1, 20374, 7, 12, 5, 8, 10, 37, 99, 33, 363, 18, 64, 2, 54, 40, 13, 19, 10, 22, 21, 2, 12, 1, 19, 1,
    4, 4, 3, 1, 1, 1, 135, 4, 190, 3, 6, 2, 6, 2, 6, 2, 3, 3, 7, 1, 7, 1938, 5, 1, 42, 1, 9, 52293, 85, 1, 71, 1, 2,
    2, 1, 2, 2, 2, 4, 1, 12, 1, 1, 1, 7, 1, 65, 1, 4, 2, 8, 1, 7, 1, 28, 1, 4, 1, 5, 1, 1, 3, 7, 1, 340, 2, 292, 2,
    50, 2096, 62, 3474, 4, 1, 27, 1, 2, 1, 1, 2, 1, 1, 10, 1, 4, 1, 1, 1, 1, 6, 1, 4, 1, 1, 1, 1, 1, 1, 3, 1, 2, 1, 1,
    2, 1, 1, 1, 1, 1, 1, 1, 1, 1, 1, 2, 1, 1, 2, 4, 1, 7, 1, 4, 1, 4, 1, 1, 1, 10, 1, 17, 5, 3, 1, 5, 1, 17, 580, 11,
    5, 31, 1, 32, 26, 3, 35, 1, 111, 3, 13, 44, 4, 9, 7, 2, 2462, 10]

/-- Runs of code points in order, with how many characters lean on the one before them at the front and at
the end of their compatibility form, where that differs from the canonical one. The counts decide where a long run of marks is broken, in the same places whichever normal form is asked for. -/
def compatibilityEdges : List (Nat × Nat × Nat × Nat) := runs 0 [
    (168, 1, 0, 1), (6, 1, 0, 1), (4, 1, 0, 1), (3, 1, 0, 1), (267, 3, 0, 1), (273, 6, 0, 1), (156, 1, 0, 1),
    (9, 1, 0, 1), (0, 1, 0, 2), (77, 2, 0, 1), (2978, 1, 0, 2), (1, 1, 0, 2), (3873, 1, 0, 1), (289, 1, 0, 1),
    (1, 2, 0, 1), (0, 1, 0, 2), (11, 3, 0, 2), (13, 3, 0, 2), (13, 2, 0, 2), (14, 2, 0, 1), (24, 1, 0, 1),
    (38, 1, 0, 1), (4188, 2, 0, 1), (150, 1, 1, 1), (1, 2, 1, 1), (3, 6, 1, 1), (15, 21, 1, 1), (266, 17, 0, 1),
    (133, 1, 0, 1), (2, 1, 0, 1), (8, 1, 0, 1), (13, 1, 0, 1), (2, 1, 0, 1), (16, 1, 0, 1), (8, 1, 0, 1),
    (4, 1, 0, 1), (10, 1, 0, 1), (2, 1, 0, 1), (51285, 2, 0, 1), (10, 2, 0, 1), (169, 3, 0, 1), (0, 6, 0, 2),
    (44, 1, 0, 1), (72, 1, 0, 1), (24, 3, 0, 2), (71, 2, 0, 1), (267, 4, 0, 1), (35, 3, 0, 1), (1, 1, 0, 1),
    (1, 10, 0, 1), (1, 12, 0, 1), (104, 6, 0, 1), (163, 2, 1, 1), (3, 1, 1, 1), (1, 2, 1, 1), (3, 6, 1, 1),
    (18, 6, 1, 1), (2, 6, 1, 1), (2, 6, 1, 1), (2, 3, 1, 1), (6, 1, 0, 1), (61999, 1, 0, 1)]

end Anadil.Text
