/-!
# Letters of other scripts in ASCII

For each run of characters, from its first on, how they are written in plain letters. Han characters are written by
their reading and a blank.
-/

namespace DiagramMarkup.Text.Roman

/-- Runs of characters with their plain spellings. -/
def runs : List (Nat × List String) :=
  [(0x00A0, [" ", "!", "C/", "PS", "$?", "Y=", "|", "SS", "\"", "(c)", "a", "<<", "!", "", "(r)", "-", "deg",
   "+-", "2", "3", "'", "u", "P", "*", ",", "1", "o", ">>", "1/4", "1/2", "3/4", "?", "A", "A", "A", "A", "A",
   "A", "AE", "C", "E", "E", "E", "E", "I", "I", "I", "I", "D", "N", "O", "O", "O", "O", "O", "x", "O", "U",
   "U", "U", "U", "Y", "Th", "ss", "a", "a", "a", "a", "a", "a", "ae", "c", "e", "e", "e", "e", "i", "i", "i",
   "i", "d", "n", "o", "o", "o", "o", "o", "/", "o", "u", "u", "u", "u", "y", "th", "y", "A", "a", "A", "a",
   "A", "a", "C", "c", "C", "c", "C", "c", "C", "c", "D", "d", "D", "d", "E", "e", "E", "e", "E", "e", "E",
   "e", "E", "e", "G", "g", "G", "g", "G", "g", "G", "g", "H", "h", "H", "h", "I", "i", "I", "i", "I", "i",
   "I", "i", "I", "i", "IJ", "ij", "J", "j", "K", "k", "k", "L", "l", "L", "l", "L", "l", "L", "l", "L", "l",
   "N", "n", "N", "n", "N", "n", "'n", "ng", "NG", "O", "o", "O", "o", "O", "o", "OE", "oe", "R", "r", "R",
   "r", "R", "r", "S", "s", "S", "s", "S", "s", "S", "s", "T", "t", "T", "t", "T", "t", "U", "u", "U", "u",
   "U", "u", "U", "u", "U", "u", "U", "u", "W", "w", "Y", "y", "Y", "Z", "z", "Z", "z", "Z", "z", "s"]),
   (0x0192, ["f"]), (0x01A0, ["O", "o"]), (0x01AF, ["U", "u"]), (0x01C4, ["DZ", "Dz", "dz", "LJ", "Lj", "lj",
   "NJ", "Nj", "nj", "A", "a", "I", "i", "O", "o", "U", "u", "U", "u", "U", "u", "U", "u", "U", "u", "e", "A",
   "a", "A", "a"]), (0x01E6, ["G", "g", "K", "k", "O", "o", "O", "o"]), (0x01F0, ["j", "DZ", "Dz", "dz", "G",
   "g"]), (0x01F8, ["N", "n", "A", "a"]), (0x0200, ["A", "a", "A", "a", "E", "e", "E", "e", "I", "i", "I",
   "i", "O", "o", "O", "o", "R", "r", "R", "r", "U", "u", "U", "u", "S", "s", "T", "t"]), (0x021E, ["H",
   "h"]), (0x0226, ["A", "a", "E", "e", "O", "o", "O", "o", "O", "o", "O", "o", "Y", "y"]), (0x0386, ["A"]),
   (0x0388, ["E", "E", "I"]), (0x038C, ["O"]), (0x038E, ["U", "O", "I", "A", "B", "G", "D", "E", "Z", "E",
   "Th", "I", "K", "L", "M", "N", "Ks", "O", "P", "R"]), (0x03A3, ["S", "T", "U", "Ph", "Kh", "Ps", "O", "I",
   "U", "a", "e", "e", "i", "u", "a", "b", "g", "d", "e", "z", "e", "th", "i", "k", "l", "m", "n", "x", "o",
   "p", "r", "s", "s", "t", "u", "ph", "kh", "ps", "o", "i", "u", "o", "u", "o"]), (0x0400, ["Ie", "Io", "Dj",
   "Gj", "Ie", "Dz", "I", "Yi", "J", "Lj", "Nj", "Tsh", "Kj", "I", "U", "Dzh", "A", "B", "V", "G", "D", "E",
   "Zh", "Z", "I", "I", "K", "L", "M", "N", "O", "P", "R", "S", "T", "U", "F", "Kh", "Ts", "Ch", "Sh", "Shch",
   "'", "Y", "'", "E", "Iu", "Ia", "a", "b", "v", "g", "d", "e", "zh", "z", "i", "i", "k", "l", "m", "n", "o",
   "p", "r", "s", "t", "u", "f", "kh", "ts", "ch", "sh", "shch", "'", "y", "'", "e", "iu", "ia", "ie", "io",
   "dj", "gj", "ie", "dz", "i", "yi", "j", "lj", "nj", "tsh", "kj", "i", "u", "dzh"]), (0x0490, ["G'", "g'"]),
   (0x1E00, ["A", "a", "B", "b", "B", "b", "B", "b", "C", "c", "D", "d", "D", "d", "D", "d", "D", "d", "D",
   "d", "E", "e", "E", "e", "E", "e", "E", "e", "E", "e", "F", "f", "G", "g", "H", "h", "H", "h", "H", "h",
   "H", "h", "H", "h", "I", "i", "I", "i", "K", "k", "K", "k", "K", "k", "L", "l", "L", "l", "L", "l", "L",
   "l", "M", "m", "M", "m", "M", "m", "N", "n", "N", "n", "N", "n", "N", "n", "O", "o", "O", "o", "O", "o",
   "O", "o", "P", "p", "P", "p", "R", "r", "R", "r", "R", "r", "R", "r", "S", "s", "S", "s", "S", "s", "S",
   "s", "S", "s", "T", "t", "T", "t", "T", "t", "T", "t", "U", "u", "U", "u", "U", "u", "U", "u", "U", "u",
   "V", "v", "V", "v", "W", "w", "W", "w", "W", "w", "W", "w", "W", "w", "X", "x", "X", "x", "Y", "y", "Z",
   "z", "Z", "z", "Z", "z", "h", "t", "w", "y", "a", "s"]), (0x1E9E, ["Ss"]), (0x1EA0, ["A", "a", "A", "a",
   "A", "a", "A", "a", "A", "a", "A", "a", "A", "a", "A", "a", "A", "a", "A", "a", "A", "a", "A", "a", "E",
   "e", "E", "e", "E", "e", "E", "e", "E", "e", "E", "e", "E", "e", "E", "e", "I", "i", "I", "i", "O", "o",
   "O", "o", "O", "o", "O", "o", "O", "o", "O", "o", "O", "o", "O", "o", "O", "o", "O", "o", "O", "o", "O",
   "o", "U", "u", "U", "u", "U", "u", "U", "u", "U", "u", "U", "u", "U", "u", "Y", "y", "Y", "y", "Y", "y",
   "Y", "y"]), (0x2000, [" ", " ", " ", " ", " ", " ", " ", " ", " ", " ", " "]), (0x2010, ["-", "-", "-",
   "-", "--", "--", "||", "_", "'", "'", ",", "'", "\"", "\"", ",,", "\"", "+", "++", "*"]), (0x2024, [".",
   "..", "...", "."]), (0x202F, [" "]), (0x2032, ["'", "''"]), (0x2039, ["<", ">"]), (0x203C, ["!!"]),
   (0x2044, ["/"]), (0x205F, [" "]), (0x20AC, ["EU"]), (0x2116, ["No"]), (0x2122, ["(tm)"]), (0x3000, [" "]),
   (0x3041, ["a", "a", "i", "i", "u", "u", "e", "e", "o", "o", "ka", "ga", "ki", "gi", "ku", "gu", "ke", "ge",
   "ko", "go", "sa", "za", "si", "zi", "su", "zu", "se", "ze", "so", "zo", "ta", "da", "ti", "di", "tu", "tu",
   "du", "te", "de", "to", "do", "na", "ni", "nu", "ne", "no", "ha", "ba", "pa", "hi", "bi", "pi", "hu", "bu",
   "pu", "he", "be", "pe", "ho", "bo", "po", "ma", "mi", "mu", "me", "mo", "ya", "ya", "yu", "yu", "yo", "yo",
   "ra", "ri", "ru", "re", "ro", "wa", "wa", "wi", "we", "wo", "n", "vu"]), (0x30A1, ["a", "a", "i", "i", "u",
   "u", "e", "e", "o", "o", "ka", "ga", "ki", "gi", "ku", "gu", "ke", "ge", "ko", "go", "sa", "za", "si",
   "zi", "su", "zu", "se", "ze", "so", "zo", "ta", "da", "ti", "di", "tu", "tu", "du", "te", "de", "to", "do",
   "na", "ni", "nu", "ne", "no", "ha", "ba", "pa", "hi", "bi", "pi", "hu", "bu", "pu", "he", "be", "pe", "ho",
   "bo", "po", "ma", "mi", "mu", "me", "mo", "ya", "ya", "yu", "yu", "yo", "yo", "ra", "ri", "ru", "re", "ro",
   "wa", "wa", "wi", "we", "wo", "n", "vu"]), (0x4E00, ["Yi "]), (0x4E03, ["Qi "]), (0x4E07, ["Mo "]),
   (0x4E09, ["San ", "Shang ", "Xia "]), (0x4E0D, ["Bu "]), (0x4E16, ["Shi "]), (0x4E1C, ["Dong "]), (0x4E2A,
   ["Ge "]), (0x4E2D, ["Zhong "]), (0x4E5D, ["Jiu "]), (0x4E66, ["Shu "]), (0x4E86, ["Liao "]), (0x4E8C,
   ["Er "]), (0x4E94, ["Wu "]), (0x4EAC, ["Jing "]), (0x4EBA, ["Ren "]), (0x4ED6, ["Ta "]), (0x4EEC,
   ["Men "]), (0x4F60, ["Ni "]), (0x500B, ["Ge "]), (0x516B, ["Ba "]), (0x516D, ["Liu "]), (0x51AC,
   ["Dong "]), (0x524D, ["Qian "]), (0x5317, ["Bei "]), (0x5341, ["Shi "]), (0x5343, ["Qian "]), (0x5357,
   ["Nan "]), (0x53E3, ["Kou "]), (0x53F0, ["Tai "]), (0x53F3, ["You "]), (0x540D, ["Ming ", "Hou "]),
   (0x56DB, ["Si "]), (0x56F3, ["Tu "]), (0x56FD, ["Guo ", "Tu "]), (0x570B, ["Guo "]), (0x5716, ["Tu "]),
   (0x571F, ["Tu "]), (0x5728, ["Zai "]), (0x5730, ["Di "]), (0x590F, ["Xia "]), (0x5927, ["Da "]), (0x5929,
   ["Tian "]), (0x5979, ["Ta "]), (0x597D, ["Hao "]), (0x5B57, ["Zi "]), (0x5B66, ["Xue "]), (0x5B78,
   ["Xue "]), (0x5C0F, ["Xiao "]), (0x5C71, ["Shan "]), (0x5DDD, ["Chuan "]), (0x5DE6, ["Zuo "]), (0x5E08,
   ["Shi "]), (0x5E2B, ["Shi "]), (0x5E74, ["Nian "]), (0x5E7F, ["Guang "]), (0x5F20, ["Zhang "]), (0x5F71,
   ["Ying "]), (0x5F8C, ["Hou "]), (0x5FC3, ["Xin "]), (0x611B, ["Ai "]), (0x6211, ["Wo "]), (0x624B,
   ["Shou "]), (0x6570, ["Shu "]), (0x6587, ["Wen "]), (0x65B0, ["Xin "]), (0x65E5, ["Ri "]), (0x660E,
   ["Ming "]), (0x6625, ["Chun "]), (0x662F, ["Shi "]), (0x66F8, ["Shu "]), (0x6708, ["Yue ", "You "]),
   (0x6728, ["Mu "]), (0x672C, ["Ben "]), (0x673A, ["Ji "]), (0x674E, ["Li "]), (0x6765, ["Lai "]), (0x6771,
   ["Dong "]), (0x6A5F, ["Ji "]), (0x6C34, ["Shui "]), (0x6C49, ["Han "]), (0x6D41, ["Liu "]), (0x6D4B,
   ["Ce "]), (0x6D77, ["Hai "]), (0x6E7E, ["Wan "]), (0x6F22, ["Han "]), (0x706B, ["Huo "]), (0x7231,
   ["Ai "]), (0x738B, ["Wang "]), (0x751F, ["Sheng "]), (0x7535, ["Dian "]), (0x753B, ["Hua "]), (0x754C,
   ["Jie "]), (0x756B, ["Hua "]), (0x767D, ["Bai ", "Bai "]), (0x7684, ["De "]), (0x76EE, ["Mu "]), (0x79CB,
   ["Qiu "]), (0x7A0B, ["Cheng "]), (0x7EA2, ["Hong "]), (0x82B1, ["Hua "]), (0x8868, ["Biao "]), (0x897F,
   ["Xi "]), (0x8A71, ["Hua "]), (0x8A9E, ["Yu "]), (0x8BD5, ["Shi "]), (0x8BDD, ["Hua "]), (0x8BED, ["Yu "]),
   (0x8ECA, ["Che "]), (0x8F66, ["Che "]), (0x8FD9, ["Zhe "]), (0x91D1, ["Jin "]), (0x9577, ["Chang "]),
   (0x957F, ["Chang ", "Men "]), (0x95E8, ["Men "]), (0x96E8, ["Yu "]), (0x96EA, ["Xue "]), (0x96FB,
   ["Dian "]), (0x98A8, ["Feng "]), (0x98CE, ["Feng "]), (0x99AC, ["Ma "]), (0x9A6C, ["Ma "]), (0x9AD8,
   ["Gao "]), (0x9ED1, ["Hei "]), (0x9F8D, ["Long "]), (0x9F99, ["Long "])]

end DiagramMarkup.Text.Roman
