import Mathlib.Data.Nat.Notation

/-!
# Unicode tables

The generated tables of the multilingual tokenizer. An entry has the part of the data that its
offset and its length stand for.

## Main definitions

* `mtlNfkdTable` — compatibility decompositions
* `mtlLowerTable` — lowercase
* `mtlCccTable` — combining classes
-/

namespace WhisperCpp

namespace Chatterbox

def mtlNfkdTable0 : List (ℕ × List ℕ) :=
  [(0x00A0, [0x0020]), (0x00A8, [0x0020, 0x0308]), (0x00AA, [0x0061]), (0x00AF, [0x0020, 0x0304]),
    (0x00B2, [0x0032]), (0x00B3, [0x0033]), (0x00B4, [0x0020, 0x0301]), (0x00B5, [0x03BC]),
    (0x00B8, [0x0020, 0x0327]), (0x00B9, [0x0031]), (0x00BA, [0x006F]),
    (0x00BC, [0x0031, 0x2044, 0x0034]), (0x00BD, [0x0031, 0x2044, 0x0032]),
    (0x00BE, [0x0033, 0x2044, 0x0034]), (0x00C0, [0x0041, 0x0300]), (0x00C1, [0x0041, 0x0301]),
    (0x00C2, [0x0041, 0x0302]), (0x00C3, [0x0041, 0x0303]), (0x00C4, [0x0041, 0x0308]),
    (0x00C5, [0x0041, 0x030A]), (0x00C7, [0x0043, 0x0327]), (0x00C8, [0x0045, 0x0300]),
    (0x00C9, [0x0045, 0x0301]), (0x00CA, [0x0045, 0x0302]), (0x00CB, [0x0045, 0x0308]),
    (0x00CC, [0x0049, 0x0300]), (0x00CD, [0x0049, 0x0301]), (0x00CE, [0x0049, 0x0302]),
    (0x00CF, [0x0049, 0x0308]), (0x00D1, [0x004E, 0x0303]), (0x00D2, [0x004F, 0x0300]),
    (0x00D3, [0x004F, 0x0301]), (0x00D4, [0x004F, 0x0302]), (0x00D5, [0x004F, 0x0303]),
    (0x00D6, [0x004F, 0x0308]), (0x00D9, [0x0055, 0x0300]), (0x00DA, [0x0055, 0x0301]),
    (0x00DB, [0x0055, 0x0302]), (0x00DC, [0x0055, 0x0308]), (0x00DD, [0x0059, 0x0301]),
    (0x00E0, [0x0061, 0x0300]), (0x00E1, [0x0061, 0x0301]), (0x00E2, [0x0061, 0x0302]),
    (0x00E3, [0x0061, 0x0303]), (0x00E4, [0x0061, 0x0308]), (0x00E5, [0x0061, 0x030A]),
    (0x00E7, [0x0063, 0x0327]), (0x00E8, [0x0065, 0x0300]), (0x00E9, [0x0065, 0x0301]),
    (0x00EA, [0x0065, 0x0302]), (0x00EB, [0x0065, 0x0308]), (0x00EC, [0x0069, 0x0300]),
    (0x00ED, [0x0069, 0x0301]), (0x00EE, [0x0069, 0x0302]), (0x00EF, [0x0069, 0x0308]),
    (0x00F1, [0x006E, 0x0303]), (0x00F2, [0x006F, 0x0300]), (0x00F3, [0x006F, 0x0301]),
    (0x00F4, [0x006F, 0x0302]), (0x00F5, [0x006F, 0x0303]), (0x00F6, [0x006F, 0x0308]),
    (0x00F9, [0x0075, 0x0300]), (0x00FA, [0x0075, 0x0301]), (0x00FB, [0x0075, 0x0302]),
    (0x00FC, [0x0075, 0x0308]), (0x00FD, [0x0079, 0x0301]), (0x00FF, [0x0079, 0x0308]),
    (0x0100, [0x0041, 0x0304]), (0x0101, [0x0061, 0x0304]), (0x0102, [0x0041, 0x0306]),
    (0x0103, [0x0061, 0x0306]), (0x0104, [0x0041, 0x0328]), (0x0105, [0x0061, 0x0328]),
    (0x0106, [0x0043, 0x0301]), (0x0107, [0x0063, 0x0301]), (0x0108, [0x0043, 0x0302]),
    (0x0109, [0x0063, 0x0302]), (0x010A, [0x0043, 0x0307]), (0x010B, [0x0063, 0x0307]),
    (0x010C, [0x0043, 0x030C]), (0x010D, [0x0063, 0x030C]), (0x010E, [0x0044, 0x030C]),
    (0x010F, [0x0064, 0x030C]), (0x0112, [0x0045, 0x0304]), (0x0113, [0x0065, 0x0304]),
    (0x0114, [0x0045, 0x0306]), (0x0115, [0x0065, 0x0306]), (0x0116, [0x0045, 0x0307]),
    (0x0117, [0x0065, 0x0307]), (0x0118, [0x0045, 0x0328]), (0x0119, [0x0065, 0x0328]),
    (0x011A, [0x0045, 0x030C]), (0x011B, [0x0065, 0x030C]), (0x011C, [0x0047, 0x0302]),
    (0x011D, [0x0067, 0x0302]), (0x011E, [0x0047, 0x0306]), (0x011F, [0x0067, 0x0306]),
    (0x0120, [0x0047, 0x0307]), (0x0121, [0x0067, 0x0307]), (0x0122, [0x0047, 0x0327]),
    (0x0123, [0x0067, 0x0327]), (0x0124, [0x0048, 0x0302]), (0x0125, [0x0068, 0x0302]),
    (0x0128, [0x0049, 0x0303]), (0x0129, [0x0069, 0x0303]), (0x012A, [0x0049, 0x0304]),
    (0x012B, [0x0069, 0x0304]), (0x012C, [0x0049, 0x0306]), (0x012D, [0x0069, 0x0306]),
    (0x012E, [0x0049, 0x0328]), (0x012F, [0x0069, 0x0328]), (0x0130, [0x0049, 0x0307]),
    (0x0132, [0x0049, 0x004A]), (0x0133, [0x0069, 0x006A]), (0x0134, [0x004A, 0x0302]),
    (0x0135, [0x006A, 0x0302]), (0x0136, [0x004B, 0x0327]), (0x0137, [0x006B, 0x0327]),
    (0x0139, [0x004C, 0x0301]), (0x013A, [0x006C, 0x0301]), (0x013B, [0x004C, 0x0327]),
    (0x013C, [0x006C, 0x0327]), (0x013D, [0x004C, 0x030C]), (0x013E, [0x006C, 0x030C]),
    (0x013F, [0x004C, 0x00B7]), (0x0140, [0x006C, 0x00B7]), (0x0143, [0x004E, 0x0301]),
    (0x0144, [0x006E, 0x0301]), (0x0145, [0x004E, 0x0327]), (0x0146, [0x006E, 0x0327]),
    (0x0147, [0x004E, 0x030C]), (0x0148, [0x006E, 0x030C]), (0x0149, [0x02BC, 0x006E]),
    (0x014C, [0x004F, 0x0304]), (0x014D, [0x006F, 0x0304]), (0x014E, [0x004F, 0x0306]),
    (0x014F, [0x006F, 0x0306]), (0x0150, [0x004F, 0x030B]), (0x0151, [0x006F, 0x030B]),
    (0x0154, [0x0052, 0x0301]), (0x0155, [0x0072, 0x0301]), (0x0156, [0x0052, 0x0327]),
    (0x0157, [0x0072, 0x0327]), (0x0158, [0x0052, 0x030C]), (0x0159, [0x0072, 0x030C]),
    (0x015A, [0x0053, 0x0301]), (0x015B, [0x0073, 0x0301]), (0x015C, [0x0053, 0x0302]),
    (0x015D, [0x0073, 0x0302]), (0x015E, [0x0053, 0x0327]), (0x015F, [0x0073, 0x0327]),
    (0x0160, [0x0053, 0x030C]), (0x0161, [0x0073, 0x030C]), (0x0162, [0x0054, 0x0327]),
    (0x0163, [0x0074, 0x0327]), (0x0164, [0x0054, 0x030C]), (0x0165, [0x0074, 0x030C]),
    (0x0168, [0x0055, 0x0303]), (0x0169, [0x0075, 0x0303]), (0x016A, [0x0055, 0x0304]),
    (0x016B, [0x0075, 0x0304]), (0x016C, [0x0055, 0x0306]), (0x016D, [0x0075, 0x0306]),
    (0x016E, [0x0055, 0x030A]), (0x016F, [0x0075, 0x030A]), (0x0170, [0x0055, 0x030B]),
    (0x0171, [0x0075, 0x030B]), (0x0172, [0x0055, 0x0328]), (0x0173, [0x0075, 0x0328]),
    (0x0174, [0x0057, 0x0302]), (0x0175, [0x0077, 0x0302]), (0x0176, [0x0059, 0x0302]),
    (0x0177, [0x0079, 0x0302]), (0x0178, [0x0059, 0x0308]), (0x0179, [0x005A, 0x0301]),
    (0x017A, [0x007A, 0x0301]), (0x017B, [0x005A, 0x0307]), (0x017C, [0x007A, 0x0307]),
    (0x017D, [0x005A, 0x030C]), (0x017E, [0x007A, 0x030C]), (0x017F, [0x0073]),
    (0x01A0, [0x004F, 0x031B]), (0x01A1, [0x006F, 0x031B]), (0x01AF, [0x0055, 0x031B]),
    (0x01B0, [0x0075, 0x031B]), (0x01C4, [0x0044, 0x005A, 0x030C]),
    (0x01C5, [0x0044, 0x007A, 0x030C]), (0x01C6, [0x0064, 0x007A, 0x030C]),
    (0x01C7, [0x004C, 0x004A]), (0x01C8, [0x004C, 0x006A]), (0x01C9, [0x006C, 0x006A]),
    (0x01CA, [0x004E, 0x004A]), (0x01CB, [0x004E, 0x006A]), (0x01CC, [0x006E, 0x006A]),
    (0x01CD, [0x0041, 0x030C]), (0x01CE, [0x0061, 0x030C]), (0x01CF, [0x0049, 0x030C]),
    (0x01D0, [0x0069, 0x030C]), (0x01D1, [0x004F, 0x030C]), (0x01D2, [0x006F, 0x030C]),
    (0x01D3, [0x0055, 0x030C]), (0x01D4, [0x0075, 0x030C]), (0x01D5, [0x0055, 0x0308, 0x0304]),
    (0x01D6, [0x0075, 0x0308, 0x0304]), (0x01D7, [0x0055, 0x0308, 0x0301]),
    (0x01D8, [0x0075, 0x0308, 0x0301]), (0x01D9, [0x0055, 0x0308, 0x030C]),
    (0x01DA, [0x0075, 0x0308, 0x030C]), (0x01DB, [0x0055, 0x0308, 0x0300]),
    (0x01DC, [0x0075, 0x0308, 0x0300]), (0x01DE, [0x0041, 0x0308, 0x0304]),
    (0x01DF, [0x0061, 0x0308, 0x0304]), (0x01E0, [0x0041, 0x0307, 0x0304]),
    (0x01E1, [0x0061, 0x0307, 0x0304]), (0x01E2, [0x00C6, 0x0304]), (0x01E3, [0x00E6, 0x0304]),
    (0x01E6, [0x0047, 0x030C]), (0x01E7, [0x0067, 0x030C]), (0x01E8, [0x004B, 0x030C]),
    (0x01E9, [0x006B, 0x030C]), (0x01EA, [0x004F, 0x0328]), (0x01EB, [0x006F, 0x0328]),
    (0x01EC, [0x004F, 0x0328, 0x0304]), (0x01ED, [0x006F, 0x0328, 0x0304]),
    (0x01EE, [0x01B7, 0x030C]), (0x01EF, [0x0292, 0x030C]), (0x01F0, [0x006A, 0x030C]),
    (0x01F1, [0x0044, 0x005A]), (0x01F2, [0x0044, 0x007A]), (0x01F3, [0x0064, 0x007A]),
    (0x01F4, [0x0047, 0x0301]), (0x01F5, [0x0067, 0x0301]), (0x01F8, [0x004E, 0x0300]),
    (0x01F9, [0x006E, 0x0300]), (0x01FA, [0x0041, 0x030A, 0x0301]),
    (0x01FB, [0x0061, 0x030A, 0x0301]), (0x01FC, [0x00C6, 0x0301]), (0x01FD, [0x00E6, 0x0301]),
    (0x01FE, [0x00D8, 0x0301]), (0x01FF, [0x00F8, 0x0301]), (0x0200, [0x0041, 0x030F]),
    (0x0201, [0x0061, 0x030F]), (0x0202, [0x0041, 0x0311]), (0x0203, [0x0061, 0x0311]),
    (0x0204, [0x0045, 0x030F]), (0x0205, [0x0065, 0x030F]), (0x0206, [0x0045, 0x0311]),
    (0x0207, [0x0065, 0x0311]), (0x0208, [0x0049, 0x030F]), (0x0209, [0x0069, 0x030F]),
    (0x020A, [0x0049, 0x0311]), (0x020B, [0x0069, 0x0311]), (0x020C, [0x004F, 0x030F]),
    (0x020D, [0x006F, 0x030F]), (0x020E, [0x004F, 0x0311]), (0x020F, [0x006F, 0x0311]),
    (0x0210, [0x0052, 0x030F]), (0x0211, [0x0072, 0x030F]), (0x0212, [0x0052, 0x0311]),
    (0x0213, [0x0072, 0x0311]), (0x0214, [0x0055, 0x030F]), (0x0215, [0x0075, 0x030F]),
    (0x0216, [0x0055, 0x0311]), (0x0217, [0x0075, 0x0311]), (0x0218, [0x0053, 0x0326]),
    (0x0219, [0x0073, 0x0326]), (0x021A, [0x0054, 0x0326]), (0x021B, [0x0074, 0x0326]),
    (0x021E, [0x0048, 0x030C]), (0x021F, [0x0068, 0x030C]), (0x0226, [0x0041, 0x0307]),
    (0x0227, [0x0061, 0x0307]), (0x0228, [0x0045, 0x0327]), (0x0229, [0x0065, 0x0327]),
    (0x022A, [0x004F, 0x0308, 0x0304]), (0x022B, [0x006F, 0x0308, 0x0304]),
    (0x022C, [0x004F, 0x0303, 0x0304]), (0x022D, [0x006F, 0x0303, 0x0304]),
    (0x022E, [0x004F, 0x0307]), (0x022F, [0x006F, 0x0307]), (0x0230, [0x004F, 0x0307, 0x0304]),
    (0x0231, [0x006F, 0x0307, 0x0304]), (0x0232, [0x0059, 0x0304]), (0x0233, [0x0079, 0x0304]),
    (0x02B0, [0x0068]), (0x02B1, [0x0266]), (0x02B2, [0x006A]), (0x02B3, [0x0072]),
    (0x02B4, [0x0279]), (0x02B5, [0x027B]), (0x02B6, [0x0281]), (0x02B7, [0x0077]),
    (0x02B8, [0x0079]), (0x02D8, [0x0020, 0x0306]), (0x02D9, [0x0020, 0x0307]),
    (0x02DA, [0x0020, 0x030A]), (0x02DB, [0x0020, 0x0328]), (0x02DC, [0x0020, 0x0303]),
    (0x02DD, [0x0020, 0x030B]), (0x02E0, [0x0263]), (0x02E1, [0x006C]), (0x02E2, [0x0073]),
    (0x02E3, [0x0078]), (0x02E4, [0x0295]), (0x0340, [0x0300]), (0x0341, [0x0301]),
    (0x0343, [0x0313]), (0x0344, [0x0308, 0x0301]), (0x0374, [0x02B9]), (0x037A, [0x0020, 0x0345]),
    (0x037E, [0x003B]), (0x0384, [0x0020, 0x0301]), (0x0385, [0x0020, 0x0308, 0x0301]),
    (0x0386, [0x0391, 0x0301]), (0x0387, [0x00B7]), (0x0388, [0x0395, 0x0301]),
    (0x0389, [0x0397, 0x0301]), (0x038A, [0x0399, 0x0301]), (0x038C, [0x039F, 0x0301]),
    (0x038E, [0x03A5, 0x0301]), (0x038F, [0x03A9, 0x0301]), (0x0390, [0x03B9, 0x0308, 0x0301]),
    (0x03AA, [0x0399, 0x0308]), (0x03AB, [0x03A5, 0x0308]), (0x03AC, [0x03B1, 0x0301]),
    (0x03AD, [0x03B5, 0x0301]), (0x03AE, [0x03B7, 0x0301]), (0x03AF, [0x03B9, 0x0301]),
    (0x03B0, [0x03C5, 0x0308, 0x0301]), (0x03CA, [0x03B9, 0x0308]), (0x03CB, [0x03C5, 0x0308]),
    (0x03CC, [0x03BF, 0x0301]), (0x03CD, [0x03C5, 0x0301]), (0x03CE, [0x03C9, 0x0301]),
    (0x03D0, [0x03B2]), (0x03D1, [0x03B8]), (0x03D2, [0x03A5]), (0x03D3, [0x03A5, 0x0301]),
    (0x03D4, [0x03A5, 0x0308]), (0x03D5, [0x03C6]), (0x03D6, [0x03C0]), (0x03F0, [0x03BA]),
    (0x03F1, [0x03C1]), (0x03F2, [0x03C2]), (0x03F4, [0x0398]), (0x03F5, [0x03B5]),
    (0x03F9, [0x03A3]), (0x0400, [0x0415, 0x0300]), (0x0401, [0x0415, 0x0308]),
    (0x0403, [0x0413, 0x0301]), (0x0407, [0x0406, 0x0308]), (0x040C, [0x041A, 0x0301]),
    (0x040D, [0x0418, 0x0300]), (0x040E, [0x0423, 0x0306]), (0x0419, [0x0418, 0x0306]),
    (0x0439, [0x0438, 0x0306]), (0x0450, [0x0435, 0x0300]), (0x0451, [0x0435, 0x0308]),
    (0x0453, [0x0433, 0x0301]), (0x0457, [0x0456, 0x0308]), (0x045C, [0x043A, 0x0301]),
    (0x045D, [0x0438, 0x0300]), (0x045E, [0x0443, 0x0306]), (0x0476, [0x0474, 0x030F]),
    (0x0477, [0x0475, 0x030F]), (0x04C1, [0x0416, 0x0306]), (0x04C2, [0x0436, 0x0306]),
    (0x04D0, [0x0410, 0x0306]), (0x04D1, [0x0430, 0x0306]), (0x04D2, [0x0410, 0x0308]),
    (0x04D3, [0x0430, 0x0308]), (0x04D6, [0x0415, 0x0306]), (0x04D7, [0x0435, 0x0306]),
    (0x04DA, [0x04D8, 0x0308]), (0x04DB, [0x04D9, 0x0308]), (0x04DC, [0x0416, 0x0308]),
    (0x04DD, [0x0436, 0x0308]), (0x04DE, [0x0417, 0x0308]), (0x04DF, [0x0437, 0x0308]),
    (0x04E2, [0x0418, 0x0304]), (0x04E3, [0x0438, 0x0304]), (0x04E4, [0x0418, 0x0308]),
    (0x04E5, [0x0438, 0x0308]), (0x04E6, [0x041E, 0x0308]), (0x04E7, [0x043E, 0x0308]),
    (0x04EA, [0x04E8, 0x0308]), (0x04EB, [0x04E9, 0x0308]), (0x04EC, [0x042D, 0x0308]),
    (0x04ED, [0x044D, 0x0308]), (0x04EE, [0x0423, 0x0304]), (0x04EF, [0x0443, 0x0304]),
    (0x04F0, [0x0423, 0x0308]), (0x04F1, [0x0443, 0x0308]), (0x04F2, [0x0423, 0x030B]),
    (0x04F3, [0x0443, 0x030B]), (0x04F4, [0x0427, 0x0308]), (0x04F5, [0x0447, 0x0308]),
    (0x04F8, [0x042B, 0x0308]), (0x04F9, [0x044B, 0x0308]), (0x0622, [0x0627, 0x0653]),
    (0x0623, [0x0627, 0x0654]), (0x0624, [0x0648, 0x0654]), (0x0625, [0x0627, 0x0655]),
    (0x0626, [0x064A, 0x0654]), (0x0675, [0x0627, 0x0674]), (0x0676, [0x0648, 0x0674]),
    (0x0677, [0x06C7, 0x0674]), (0x0678, [0x064A, 0x0674]), (0x06C0, [0x06D5, 0x0654]),
    (0x06C2, [0x06C1, 0x0654]), (0x06D3, [0x06D2, 0x0654]), (0x0929, [0x0928, 0x093C]),
    (0x0931, [0x0930, 0x093C]), (0x0934, [0x0933, 0x093C]), (0x0958, [0x0915, 0x093C]),
    (0x0959, [0x0916, 0x093C]), (0x095A, [0x0917, 0x093C]), (0x095B, [0x091C, 0x093C]),
    (0x095C, [0x0921, 0x093C]), (0x095D, [0x0922, 0x093C])]

def mtlNfkdTable1 : List (ℕ × List ℕ) :=
  [(0x095E, [0x092B, 0x093C]), (0x095F, [0x092F, 0x093C]), (0x1D2C, [0x0041]), (0x1D2D, [0x00C6]),
    (0x1D2E, [0x0042]), (0x1D30, [0x0044]), (0x1D31, [0x0045]), (0x1D32, [0x018E]),
    (0x1D33, [0x0047]), (0x1D34, [0x0048]), (0x1D35, [0x0049]), (0x1D36, [0x004A]),
    (0x1D37, [0x004B]), (0x1D38, [0x004C]), (0x1D39, [0x004D]), (0x1D3A, [0x004E]),
    (0x1D3C, [0x004F]), (0x1D3D, [0x0222]), (0x1D3E, [0x0050]), (0x1D3F, [0x0052]),
    (0x1D40, [0x0054]), (0x1D41, [0x0055]), (0x1D42, [0x0057]), (0x1D43, [0x0061]),
    (0x1D44, [0x0250]), (0x1D45, [0x0251]), (0x1D46, [0x1D02]), (0x1D47, [0x0062]),
    (0x1D48, [0x0064]), (0x1D49, [0x0065]), (0x1D4A, [0x0259]), (0x1D4B, [0x025B]),
    (0x1D4C, [0x025C]), (0x1D4D, [0x0067]), (0x1D4F, [0x006B]), (0x1D50, [0x006D]),
    (0x1D51, [0x014B]), (0x1D52, [0x006F]), (0x1D53, [0x0254]), (0x1D54, [0x1D16]),
    (0x1D55, [0x1D17]), (0x1D56, [0x0070]), (0x1D57, [0x0074]), (0x1D58, [0x0075]),
    (0x1D59, [0x1D1D]), (0x1D5A, [0x026F]), (0x1D5B, [0x0076]), (0x1D5C, [0x1D25]),
    (0x1D5D, [0x03B2]), (0x1D5E, [0x03B3]), (0x1D5F, [0x03B4]), (0x1D60, [0x03C6]),
    (0x1D61, [0x03C7]), (0x1D62, [0x0069]), (0x1D63, [0x0072]), (0x1D64, [0x0075]),
    (0x1D65, [0x0076]), (0x1D66, [0x03B2]), (0x1D67, [0x03B3]), (0x1D68, [0x03C1]),
    (0x1D69, [0x03C6]), (0x1D6A, [0x03C7]), (0x1D78, [0x043D]), (0x1D9B, [0x0252]),
    (0x1D9C, [0x0063]), (0x1D9D, [0x0255]), (0x1D9E, [0x00F0]), (0x1D9F, [0x025C]),
    (0x1DA0, [0x0066]), (0x1DA1, [0x025F]), (0x1DA2, [0x0261]), (0x1DA3, [0x0265]),
    (0x1DA4, [0x0268]), (0x1DA5, [0x0269]), (0x1DA6, [0x026A]), (0x1DA7, [0x1D7B]),
    (0x1DA8, [0x029D]), (0x1DA9, [0x026D]), (0x1DAA, [0x1D85]), (0x1DAB, [0x029F]),
    (0x1DAC, [0x0271]), (0x1DAD, [0x0270]), (0x1DAE, [0x0272]), (0x1DAF, [0x0273]),
    (0x1DB0, [0x0274]), (0x1DB1, [0x0275]), (0x1DB2, [0x0278]), (0x1DB3, [0x0282]),
    (0x1DB4, [0x0283]), (0x1DB5, [0x01AB]), (0x1DB6, [0x0289]), (0x1DB7, [0x028A]),
    (0x1DB8, [0x1D1C]), (0x1DB9, [0x028B]), (0x1DBA, [0x028C]), (0x1DBB, [0x007A]),
    (0x1DBC, [0x0290]), (0x1DBD, [0x0291]), (0x1DBE, [0x0292]), (0x1DBF, [0x03B8]),
    (0x1E00, [0x0041, 0x0325]), (0x1E01, [0x0061, 0x0325]), (0x1E02, [0x0042, 0x0307]),
    (0x1E03, [0x0062, 0x0307]), (0x1E04, [0x0042, 0x0323]), (0x1E05, [0x0062, 0x0323]),
    (0x1E06, [0x0042, 0x0331]), (0x1E07, [0x0062, 0x0331]), (0x1E08, [0x0043, 0x0327, 0x0301]),
    (0x1E09, [0x0063, 0x0327, 0x0301]), (0x1E0A, [0x0044, 0x0307]), (0x1E0B, [0x0064, 0x0307]),
    (0x1E0C, [0x0044, 0x0323]), (0x1E0D, [0x0064, 0x0323]), (0x1E0E, [0x0044, 0x0331]),
    (0x1E0F, [0x0064, 0x0331]), (0x1E10, [0x0044, 0x0327]), (0x1E11, [0x0064, 0x0327]),
    (0x1E12, [0x0044, 0x032D]), (0x1E13, [0x0064, 0x032D]), (0x1E14, [0x0045, 0x0304, 0x0300]),
    (0x1E15, [0x0065, 0x0304, 0x0300]), (0x1E16, [0x0045, 0x0304, 0x0301]),
    (0x1E17, [0x0065, 0x0304, 0x0301]), (0x1E18, [0x0045, 0x032D]), (0x1E19, [0x0065, 0x032D]),
    (0x1E1A, [0x0045, 0x0330]), (0x1E1B, [0x0065, 0x0330]), (0x1E1C, [0x0045, 0x0327, 0x0306]),
    (0x1E1D, [0x0065, 0x0327, 0x0306]), (0x1E1E, [0x0046, 0x0307]), (0x1E1F, [0x0066, 0x0307]),
    (0x1E20, [0x0047, 0x0304]), (0x1E21, [0x0067, 0x0304]), (0x1E22, [0x0048, 0x0307]),
    (0x1E23, [0x0068, 0x0307]), (0x1E24, [0x0048, 0x0323]), (0x1E25, [0x0068, 0x0323]),
    (0x1E26, [0x0048, 0x0308]), (0x1E27, [0x0068, 0x0308]), (0x1E28, [0x0048, 0x0327]),
    (0x1E29, [0x0068, 0x0327]), (0x1E2A, [0x0048, 0x032E]), (0x1E2B, [0x0068, 0x032E]),
    (0x1E2C, [0x0049, 0x0330]), (0x1E2D, [0x0069, 0x0330]), (0x1E2E, [0x0049, 0x0308, 0x0301]),
    (0x1E2F, [0x0069, 0x0308, 0x0301]), (0x1E30, [0x004B, 0x0301]), (0x1E31, [0x006B, 0x0301]),
    (0x1E32, [0x004B, 0x0323]), (0x1E33, [0x006B, 0x0323]), (0x1E34, [0x004B, 0x0331]),
    (0x1E35, [0x006B, 0x0331]), (0x1E36, [0x004C, 0x0323]), (0x1E37, [0x006C, 0x0323]),
    (0x1E38, [0x004C, 0x0323, 0x0304]), (0x1E39, [0x006C, 0x0323, 0x0304]),
    (0x1E3A, [0x004C, 0x0331]), (0x1E3B, [0x006C, 0x0331]), (0x1E3C, [0x004C, 0x032D]),
    (0x1E3D, [0x006C, 0x032D]), (0x1E3E, [0x004D, 0x0301]), (0x1E3F, [0x006D, 0x0301]),
    (0x1E40, [0x004D, 0x0307]), (0x1E41, [0x006D, 0x0307]), (0x1E42, [0x004D, 0x0323]),
    (0x1E43, [0x006D, 0x0323]), (0x1E44, [0x004E, 0x0307]), (0x1E45, [0x006E, 0x0307]),
    (0x1E46, [0x004E, 0x0323]), (0x1E47, [0x006E, 0x0323]), (0x1E48, [0x004E, 0x0331]),
    (0x1E49, [0x006E, 0x0331]), (0x1E4A, [0x004E, 0x032D]), (0x1E4B, [0x006E, 0x032D]),
    (0x1E4C, [0x004F, 0x0303, 0x0301]), (0x1E4D, [0x006F, 0x0303, 0x0301]),
    (0x1E4E, [0x004F, 0x0303, 0x0308]), (0x1E4F, [0x006F, 0x0303, 0x0308]),
    (0x1E50, [0x004F, 0x0304, 0x0300]), (0x1E51, [0x006F, 0x0304, 0x0300]),
    (0x1E52, [0x004F, 0x0304, 0x0301]), (0x1E53, [0x006F, 0x0304, 0x0301]),
    (0x1E54, [0x0050, 0x0301]), (0x1E55, [0x0070, 0x0301]), (0x1E56, [0x0050, 0x0307]),
    (0x1E57, [0x0070, 0x0307]), (0x1E58, [0x0052, 0x0307]), (0x1E59, [0x0072, 0x0307]),
    (0x1E5A, [0x0052, 0x0323]), (0x1E5B, [0x0072, 0x0323]), (0x1E5C, [0x0052, 0x0323, 0x0304]),
    (0x1E5D, [0x0072, 0x0323, 0x0304]), (0x1E5E, [0x0052, 0x0331]), (0x1E5F, [0x0072, 0x0331]),
    (0x1E60, [0x0053, 0x0307]), (0x1E61, [0x0073, 0x0307]), (0x1E62, [0x0053, 0x0323]),
    (0x1E63, [0x0073, 0x0323]), (0x1E64, [0x0053, 0x0301, 0x0307]),
    (0x1E65, [0x0073, 0x0301, 0x0307]), (0x1E66, [0x0053, 0x030C, 0x0307]),
    (0x1E67, [0x0073, 0x030C, 0x0307]), (0x1E68, [0x0053, 0x0323, 0x0307]),
    (0x1E69, [0x0073, 0x0323, 0x0307]), (0x1E6A, [0x0054, 0x0307]), (0x1E6B, [0x0074, 0x0307]),
    (0x1E6C, [0x0054, 0x0323]), (0x1E6D, [0x0074, 0x0323]), (0x1E6E, [0x0054, 0x0331]),
    (0x1E6F, [0x0074, 0x0331]), (0x1E70, [0x0054, 0x032D]), (0x1E71, [0x0074, 0x032D]),
    (0x1E72, [0x0055, 0x0324]), (0x1E73, [0x0075, 0x0324]), (0x1E74, [0x0055, 0x0330]),
    (0x1E75, [0x0075, 0x0330]), (0x1E76, [0x0055, 0x032D]), (0x1E77, [0x0075, 0x032D]),
    (0x1E78, [0x0055, 0x0303, 0x0301]), (0x1E79, [0x0075, 0x0303, 0x0301]),
    (0x1E7A, [0x0055, 0x0304, 0x0308]), (0x1E7B, [0x0075, 0x0304, 0x0308]),
    (0x1E7C, [0x0056, 0x0303]), (0x1E7D, [0x0076, 0x0303]), (0x1E7E, [0x0056, 0x0323]),
    (0x1E7F, [0x0076, 0x0323]), (0x1E80, [0x0057, 0x0300]), (0x1E81, [0x0077, 0x0300]),
    (0x1E82, [0x0057, 0x0301]), (0x1E83, [0x0077, 0x0301]), (0x1E84, [0x0057, 0x0308]),
    (0x1E85, [0x0077, 0x0308]), (0x1E86, [0x0057, 0x0307]), (0x1E87, [0x0077, 0x0307]),
    (0x1E88, [0x0057, 0x0323]), (0x1E89, [0x0077, 0x0323]), (0x1E8A, [0x0058, 0x0307]),
    (0x1E8B, [0x0078, 0x0307]), (0x1E8C, [0x0058, 0x0308]), (0x1E8D, [0x0078, 0x0308]),
    (0x1E8E, [0x0059, 0x0307]), (0x1E8F, [0x0079, 0x0307]), (0x1E90, [0x005A, 0x0302]),
    (0x1E91, [0x007A, 0x0302]), (0x1E92, [0x005A, 0x0323]), (0x1E93, [0x007A, 0x0323]),
    (0x1E94, [0x005A, 0x0331]), (0x1E95, [0x007A, 0x0331]), (0x1E96, [0x0068, 0x0331]),
    (0x1E97, [0x0074, 0x0308]), (0x1E98, [0x0077, 0x030A]), (0x1E99, [0x0079, 0x030A]),
    (0x1E9A, [0x0061, 0x02BE]), (0x1E9B, [0x0073, 0x0307]), (0x1EA0, [0x0041, 0x0323]),
    (0x1EA1, [0x0061, 0x0323]), (0x1EA2, [0x0041, 0x0309]), (0x1EA3, [0x0061, 0x0309]),
    (0x1EA4, [0x0041, 0x0302, 0x0301]), (0x1EA5, [0x0061, 0x0302, 0x0301]),
    (0x1EA6, [0x0041, 0x0302, 0x0300]), (0x1EA7, [0x0061, 0x0302, 0x0300]),
    (0x1EA8, [0x0041, 0x0302, 0x0309]), (0x1EA9, [0x0061, 0x0302, 0x0309]),
    (0x1EAA, [0x0041, 0x0302, 0x0303]), (0x1EAB, [0x0061, 0x0302, 0x0303]),
    (0x1EAC, [0x0041, 0x0323, 0x0302]), (0x1EAD, [0x0061, 0x0323, 0x0302]),
    (0x1EAE, [0x0041, 0x0306, 0x0301]), (0x1EAF, [0x0061, 0x0306, 0x0301]),
    (0x1EB0, [0x0041, 0x0306, 0x0300]), (0x1EB1, [0x0061, 0x0306, 0x0300]),
    (0x1EB2, [0x0041, 0x0306, 0x0309]), (0x1EB3, [0x0061, 0x0306, 0x0309]),
    (0x1EB4, [0x0041, 0x0306, 0x0303]), (0x1EB5, [0x0061, 0x0306, 0x0303]),
    (0x1EB6, [0x0041, 0x0323, 0x0306]), (0x1EB7, [0x0061, 0x0323, 0x0306]),
    (0x1EB8, [0x0045, 0x0323]), (0x1EB9, [0x0065, 0x0323]), (0x1EBA, [0x0045, 0x0309]),
    (0x1EBB, [0x0065, 0x0309]), (0x1EBC, [0x0045, 0x0303]), (0x1EBD, [0x0065, 0x0303]),
    (0x1EBE, [0x0045, 0x0302, 0x0301]), (0x1EBF, [0x0065, 0x0302, 0x0301]),
    (0x1EC0, [0x0045, 0x0302, 0x0300]), (0x1EC1, [0x0065, 0x0302, 0x0300]),
    (0x1EC2, [0x0045, 0x0302, 0x0309]), (0x1EC3, [0x0065, 0x0302, 0x0309]),
    (0x1EC4, [0x0045, 0x0302, 0x0303]), (0x1EC5, [0x0065, 0x0302, 0x0303]),
    (0x1EC6, [0x0045, 0x0323, 0x0302]), (0x1EC7, [0x0065, 0x0323, 0x0302]),
    (0x1EC8, [0x0049, 0x0309]), (0x1EC9, [0x0069, 0x0309]), (0x1ECA, [0x0049, 0x0323]),
    (0x1ECB, [0x0069, 0x0323]), (0x1ECC, [0x004F, 0x0323]), (0x1ECD, [0x006F, 0x0323]),
    (0x1ECE, [0x004F, 0x0309]), (0x1ECF, [0x006F, 0x0309]), (0x1ED0, [0x004F, 0x0302, 0x0301]),
    (0x1ED1, [0x006F, 0x0302, 0x0301]), (0x1ED2, [0x004F, 0x0302, 0x0300]),
    (0x1ED3, [0x006F, 0x0302, 0x0300]), (0x1ED4, [0x004F, 0x0302, 0x0309]),
    (0x1ED5, [0x006F, 0x0302, 0x0309]), (0x1ED6, [0x004F, 0x0302, 0x0303]),
    (0x1ED7, [0x006F, 0x0302, 0x0303]), (0x1ED8, [0x004F, 0x0323, 0x0302]),
    (0x1ED9, [0x006F, 0x0323, 0x0302]), (0x1EDA, [0x004F, 0x031B, 0x0301]),
    (0x1EDB, [0x006F, 0x031B, 0x0301]), (0x1EDC, [0x004F, 0x031B, 0x0300]),
    (0x1EDD, [0x006F, 0x031B, 0x0300]), (0x1EDE, [0x004F, 0x031B, 0x0309]),
    (0x1EDF, [0x006F, 0x031B, 0x0309]), (0x1EE0, [0x004F, 0x031B, 0x0303]),
    (0x1EE1, [0x006F, 0x031B, 0x0303]), (0x1EE2, [0x004F, 0x031B, 0x0323]),
    (0x1EE3, [0x006F, 0x031B, 0x0323]), (0x1EE4, [0x0055, 0x0323]), (0x1EE5, [0x0075, 0x0323]),
    (0x1EE6, [0x0055, 0x0309]), (0x1EE7, [0x0075, 0x0309]), (0x1EE8, [0x0055, 0x031B, 0x0301]),
    (0x1EE9, [0x0075, 0x031B, 0x0301]), (0x1EEA, [0x0055, 0x031B, 0x0300]),
    (0x1EEB, [0x0075, 0x031B, 0x0300]), (0x1EEC, [0x0055, 0x031B, 0x0309]),
    (0x1EED, [0x0075, 0x031B, 0x0309]), (0x1EEE, [0x0055, 0x031B, 0x0303]),
    (0x1EEF, [0x0075, 0x031B, 0x0303]), (0x1EF0, [0x0055, 0x031B, 0x0323]),
    (0x1EF1, [0x0075, 0x031B, 0x0323]), (0x1EF2, [0x0059, 0x0300]), (0x1EF3, [0x0079, 0x0300]),
    (0x1EF4, [0x0059, 0x0323]), (0x1EF5, [0x0079, 0x0323]), (0x1EF6, [0x0059, 0x0309]),
    (0x1EF7, [0x0079, 0x0309]), (0x1EF8, [0x0059, 0x0303]), (0x1EF9, [0x0079, 0x0303]),
    (0x1F00, [0x03B1, 0x0313]), (0x1F01, [0x03B1, 0x0314]), (0x1F02, [0x03B1, 0x0313, 0x0300]),
    (0x1F03, [0x03B1, 0x0314, 0x0300]), (0x1F04, [0x03B1, 0x0313, 0x0301]),
    (0x1F05, [0x03B1, 0x0314, 0x0301]), (0x1F06, [0x03B1, 0x0313, 0x0342]),
    (0x1F07, [0x03B1, 0x0314, 0x0342]), (0x1F08, [0x0391, 0x0313]), (0x1F09, [0x0391, 0x0314]),
    (0x1F0A, [0x0391, 0x0313, 0x0300]), (0x1F0B, [0x0391, 0x0314, 0x0300]),
    (0x1F0C, [0x0391, 0x0313, 0x0301]), (0x1F0D, [0x0391, 0x0314, 0x0301]),
    (0x1F0E, [0x0391, 0x0313, 0x0342]), (0x1F0F, [0x0391, 0x0314, 0x0342]),
    (0x1F10, [0x03B5, 0x0313]), (0x1F11, [0x03B5, 0x0314]), (0x1F12, [0x03B5, 0x0313, 0x0300]),
    (0x1F13, [0x03B5, 0x0314, 0x0300]), (0x1F14, [0x03B5, 0x0313, 0x0301]),
    (0x1F15, [0x03B5, 0x0314, 0x0301]), (0x1F18, [0x0395, 0x0313]), (0x1F19, [0x0395, 0x0314]),
    (0x1F1A, [0x0395, 0x0313, 0x0300]), (0x1F1B, [0x0395, 0x0314, 0x0300]),
    (0x1F1C, [0x0395, 0x0313, 0x0301]), (0x1F1D, [0x0395, 0x0314, 0x0301]),
    (0x1F20, [0x03B7, 0x0313]), (0x1F21, [0x03B7, 0x0314]), (0x1F22, [0x03B7, 0x0313, 0x0300]),
    (0x1F23, [0x03B7, 0x0314, 0x0300]), (0x1F24, [0x03B7, 0x0313, 0x0301]),
    (0x1F25, [0x03B7, 0x0314, 0x0301]), (0x1F26, [0x03B7, 0x0313, 0x0342]),
    (0x1F27, [0x03B7, 0x0314, 0x0342]), (0x1F28, [0x0397, 0x0313]), (0x1F29, [0x0397, 0x0314]),
    (0x1F2A, [0x0397, 0x0313, 0x0300]), (0x1F2B, [0x0397, 0x0314, 0x0300]),
    (0x1F2C, [0x0397, 0x0313, 0x0301]), (0x1F2D, [0x0397, 0x0314, 0x0301]),
    (0x1F2E, [0x0397, 0x0313, 0x0342]), (0x1F2F, [0x0397, 0x0314, 0x0342]),
    (0x1F30, [0x03B9, 0x0313]), (0x1F31, [0x03B9, 0x0314]), (0x1F32, [0x03B9, 0x0313, 0x0300]),
    (0x1F33, [0x03B9, 0x0314, 0x0300]), (0x1F34, [0x03B9, 0x0313, 0x0301]),
    (0x1F35, [0x03B9, 0x0314, 0x0301]), (0x1F36, [0x03B9, 0x0313, 0x0342]),
    (0x1F37, [0x03B9, 0x0314, 0x0342]), (0x1F38, [0x0399, 0x0313]), (0x1F39, [0x0399, 0x0314]),
    (0x1F3A, [0x0399, 0x0313, 0x0300]), (0x1F3B, [0x0399, 0x0314, 0x0300]),
    (0x1F3C, [0x0399, 0x0313, 0x0301]), (0x1F3D, [0x0399, 0x0314, 0x0301]),
    (0x1F3E, [0x0399, 0x0313, 0x0342]), (0x1F3F, [0x0399, 0x0314, 0x0342]),
    (0x1F40, [0x03BF, 0x0313]), (0x1F41, [0x03BF, 0x0314]), (0x1F42, [0x03BF, 0x0313, 0x0300]),
    (0x1F43, [0x03BF, 0x0314, 0x0300]), (0x1F44, [0x03BF, 0x0313, 0x0301]),
    (0x1F45, [0x03BF, 0x0314, 0x0301]), (0x1F48, [0x039F, 0x0313]), (0x1F49, [0x039F, 0x0314]),
    (0x1F4A, [0x039F, 0x0313, 0x0300]), (0x1F4B, [0x039F, 0x0314, 0x0300]),
    (0x1F4C, [0x039F, 0x0313, 0x0301]), (0x1F4D, [0x039F, 0x0314, 0x0301]),
    (0x1F50, [0x03C5, 0x0313]), (0x1F51, [0x03C5, 0x0314])]

def mtlNfkdTable2 : List (ℕ × List ℕ) :=
  [(0x1F52, [0x03C5, 0x0313, 0x0300]), (0x1F53, [0x03C5, 0x0314, 0x0300]),
    (0x1F54, [0x03C5, 0x0313, 0x0301]), (0x1F55, [0x03C5, 0x0314, 0x0301]),
    (0x1F56, [0x03C5, 0x0313, 0x0342]), (0x1F57, [0x03C5, 0x0314, 0x0342]),
    (0x1F59, [0x03A5, 0x0314]), (0x1F5B, [0x03A5, 0x0314, 0x0300]),
    (0x1F5D, [0x03A5, 0x0314, 0x0301]), (0x1F5F, [0x03A5, 0x0314, 0x0342]),
    (0x1F60, [0x03C9, 0x0313]), (0x1F61, [0x03C9, 0x0314]), (0x1F62, [0x03C9, 0x0313, 0x0300]),
    (0x1F63, [0x03C9, 0x0314, 0x0300]), (0x1F64, [0x03C9, 0x0313, 0x0301]),
    (0x1F65, [0x03C9, 0x0314, 0x0301]), (0x1F66, [0x03C9, 0x0313, 0x0342]),
    (0x1F67, [0x03C9, 0x0314, 0x0342]), (0x1F68, [0x03A9, 0x0313]), (0x1F69, [0x03A9, 0x0314]),
    (0x1F6A, [0x03A9, 0x0313, 0x0300]), (0x1F6B, [0x03A9, 0x0314, 0x0300]),
    (0x1F6C, [0x03A9, 0x0313, 0x0301]), (0x1F6D, [0x03A9, 0x0314, 0x0301]),
    (0x1F6E, [0x03A9, 0x0313, 0x0342]), (0x1F6F, [0x03A9, 0x0314, 0x0342]),
    (0x1F70, [0x03B1, 0x0300]), (0x1F71, [0x03B1, 0x0301]), (0x1F72, [0x03B5, 0x0300]),
    (0x1F73, [0x03B5, 0x0301]), (0x1F74, [0x03B7, 0x0300]), (0x1F75, [0x03B7, 0x0301]),
    (0x1F76, [0x03B9, 0x0300]), (0x1F77, [0x03B9, 0x0301]), (0x1F78, [0x03BF, 0x0300]),
    (0x1F79, [0x03BF, 0x0301]), (0x1F7A, [0x03C5, 0x0300]), (0x1F7B, [0x03C5, 0x0301]),
    (0x1F7C, [0x03C9, 0x0300]), (0x1F7D, [0x03C9, 0x0301]), (0x1F80, [0x03B1, 0x0313, 0x0345]),
    (0x1F81, [0x03B1, 0x0314, 0x0345]), (0x1F82, [0x03B1, 0x0313, 0x0300, 0x0345]),
    (0x1F83, [0x03B1, 0x0314, 0x0300, 0x0345]), (0x1F84, [0x03B1, 0x0313, 0x0301, 0x0345]),
    (0x1F85, [0x03B1, 0x0314, 0x0301, 0x0345]), (0x1F86, [0x03B1, 0x0313, 0x0342, 0x0345]),
    (0x1F87, [0x03B1, 0x0314, 0x0342, 0x0345]), (0x1F88, [0x0391, 0x0313, 0x0345]),
    (0x1F89, [0x0391, 0x0314, 0x0345]), (0x1F8A, [0x0391, 0x0313, 0x0300, 0x0345]),
    (0x1F8B, [0x0391, 0x0314, 0x0300, 0x0345]), (0x1F8C, [0x0391, 0x0313, 0x0301, 0x0345]),
    (0x1F8D, [0x0391, 0x0314, 0x0301, 0x0345]), (0x1F8E, [0x0391, 0x0313, 0x0342, 0x0345]),
    (0x1F8F, [0x0391, 0x0314, 0x0342, 0x0345]), (0x1F90, [0x03B7, 0x0313, 0x0345]),
    (0x1F91, [0x03B7, 0x0314, 0x0345]), (0x1F92, [0x03B7, 0x0313, 0x0300, 0x0345]),
    (0x1F93, [0x03B7, 0x0314, 0x0300, 0x0345]), (0x1F94, [0x03B7, 0x0313, 0x0301, 0x0345]),
    (0x1F95, [0x03B7, 0x0314, 0x0301, 0x0345]), (0x1F96, [0x03B7, 0x0313, 0x0342, 0x0345]),
    (0x1F97, [0x03B7, 0x0314, 0x0342, 0x0345]), (0x1F98, [0x0397, 0x0313, 0x0345]),
    (0x1F99, [0x0397, 0x0314, 0x0345]), (0x1F9A, [0x0397, 0x0313, 0x0300, 0x0345]),
    (0x1F9B, [0x0397, 0x0314, 0x0300, 0x0345]), (0x1F9C, [0x0397, 0x0313, 0x0301, 0x0345]),
    (0x1F9D, [0x0397, 0x0314, 0x0301, 0x0345]), (0x1F9E, [0x0397, 0x0313, 0x0342, 0x0345]),
    (0x1F9F, [0x0397, 0x0314, 0x0342, 0x0345]), (0x1FA0, [0x03C9, 0x0313, 0x0345]),
    (0x1FA1, [0x03C9, 0x0314, 0x0345]), (0x1FA2, [0x03C9, 0x0313, 0x0300, 0x0345]),
    (0x1FA3, [0x03C9, 0x0314, 0x0300, 0x0345]), (0x1FA4, [0x03C9, 0x0313, 0x0301, 0x0345]),
    (0x1FA5, [0x03C9, 0x0314, 0x0301, 0x0345]), (0x1FA6, [0x03C9, 0x0313, 0x0342, 0x0345]),
    (0x1FA7, [0x03C9, 0x0314, 0x0342, 0x0345]), (0x1FA8, [0x03A9, 0x0313, 0x0345]),
    (0x1FA9, [0x03A9, 0x0314, 0x0345]), (0x1FAA, [0x03A9, 0x0313, 0x0300, 0x0345]),
    (0x1FAB, [0x03A9, 0x0314, 0x0300, 0x0345]), (0x1FAC, [0x03A9, 0x0313, 0x0301, 0x0345]),
    (0x1FAD, [0x03A9, 0x0314, 0x0301, 0x0345]), (0x1FAE, [0x03A9, 0x0313, 0x0342, 0x0345]),
    (0x1FAF, [0x03A9, 0x0314, 0x0342, 0x0345]), (0x1FB0, [0x03B1, 0x0306]),
    (0x1FB1, [0x03B1, 0x0304]), (0x1FB2, [0x03B1, 0x0300, 0x0345]), (0x1FB3, [0x03B1, 0x0345]),
    (0x1FB4, [0x03B1, 0x0301, 0x0345]), (0x1FB6, [0x03B1, 0x0342]),
    (0x1FB7, [0x03B1, 0x0342, 0x0345]), (0x1FB8, [0x0391, 0x0306]), (0x1FB9, [0x0391, 0x0304]),
    (0x1FBA, [0x0391, 0x0300]), (0x1FBB, [0x0391, 0x0301]), (0x1FBC, [0x0391, 0x0345]),
    (0x1FBD, [0x0020, 0x0313]), (0x1FBE, [0x03B9]), (0x1FBF, [0x0020, 0x0313]),
    (0x1FC0, [0x0020, 0x0342]), (0x1FC1, [0x0020, 0x0308, 0x0342]),
    (0x1FC2, [0x03B7, 0x0300, 0x0345]), (0x1FC3, [0x03B7, 0x0345]),
    (0x1FC4, [0x03B7, 0x0301, 0x0345]), (0x1FC6, [0x03B7, 0x0342]),
    (0x1FC7, [0x03B7, 0x0342, 0x0345]), (0x1FC8, [0x0395, 0x0300]), (0x1FC9, [0x0395, 0x0301]),
    (0x1FCA, [0x0397, 0x0300]), (0x1FCB, [0x0397, 0x0301]), (0x1FCC, [0x0397, 0x0345]),
    (0x1FCD, [0x0020, 0x0313, 0x0300]), (0x1FCE, [0x0020, 0x0313, 0x0301]),
    (0x1FCF, [0x0020, 0x0313, 0x0342]), (0x1FD0, [0x03B9, 0x0306]), (0x1FD1, [0x03B9, 0x0304]),
    (0x1FD2, [0x03B9, 0x0308, 0x0300]), (0x1FD3, [0x03B9, 0x0308, 0x0301]),
    (0x1FD6, [0x03B9, 0x0342]), (0x1FD7, [0x03B9, 0x0308, 0x0342]), (0x1FD8, [0x0399, 0x0306]),
    (0x1FD9, [0x0399, 0x0304]), (0x1FDA, [0x0399, 0x0300]), (0x1FDB, [0x0399, 0x0301]),
    (0x1FDD, [0x0020, 0x0314, 0x0300]), (0x1FDE, [0x0020, 0x0314, 0x0301]),
    (0x1FDF, [0x0020, 0x0314, 0x0342]), (0x1FE0, [0x03C5, 0x0306]), (0x1FE1, [0x03C5, 0x0304]),
    (0x1FE2, [0x03C5, 0x0308, 0x0300]), (0x1FE3, [0x03C5, 0x0308, 0x0301]),
    (0x1FE4, [0x03C1, 0x0313]), (0x1FE5, [0x03C1, 0x0314]), (0x1FE6, [0x03C5, 0x0342]),
    (0x1FE7, [0x03C5, 0x0308, 0x0342]), (0x1FE8, [0x03A5, 0x0306]), (0x1FE9, [0x03A5, 0x0304]),
    (0x1FEA, [0x03A5, 0x0300]), (0x1FEB, [0x03A5, 0x0301]), (0x1FEC, [0x03A1, 0x0314]),
    (0x1FED, [0x0020, 0x0308, 0x0300]), (0x1FEE, [0x0020, 0x0308, 0x0301]), (0x1FEF, [0x0060]),
    (0x1FF2, [0x03C9, 0x0300, 0x0345]), (0x1FF3, [0x03C9, 0x0345]),
    (0x1FF4, [0x03C9, 0x0301, 0x0345]), (0x1FF6, [0x03C9, 0x0342]),
    (0x1FF7, [0x03C9, 0x0342, 0x0345]), (0x1FF8, [0x039F, 0x0300]), (0x1FF9, [0x039F, 0x0301]),
    (0x1FFA, [0x03A9, 0x0300]), (0x1FFB, [0x03A9, 0x0301]), (0x1FFC, [0x03A9, 0x0345]),
    (0x1FFD, [0x0020, 0x0301]), (0x1FFE, [0x0020, 0x0314]), (0x2000, [0x0020]), (0x2001, [0x0020]),
    (0x2002, [0x0020]), (0x2003, [0x0020]), (0x2004, [0x0020]), (0x2005, [0x0020]),
    (0x2006, [0x0020]), (0x2007, [0x0020]), (0x2008, [0x0020]), (0x2009, [0x0020]),
    (0x200A, [0x0020]), (0x2011, [0x2010]), (0x2017, [0x0020, 0x0333]), (0x2024, [0x002E]),
    (0x2025, [0x002E, 0x002E]), (0x2026, [0x002E, 0x002E, 0x002E]), (0x202F, [0x0020]),
    (0x2033, [0x2032, 0x2032]), (0x2034, [0x2032, 0x2032, 0x2032]), (0x2036, [0x2035, 0x2035]),
    (0x2037, [0x2035, 0x2035, 0x2035]), (0x203C, [0x0021, 0x0021]), (0x203E, [0x0020, 0x0305]),
    (0x2047, [0x003F, 0x003F]), (0x2048, [0x003F, 0x0021]), (0x2049, [0x0021, 0x003F]),
    (0x2057, [0x2032, 0x2032, 0x2032, 0x2032]), (0x205F, [0x0020]), (0x2070, [0x0030]),
    (0x2071, [0x0069]), (0x2074, [0x0034]), (0x2075, [0x0035]), (0x2076, [0x0036]),
    (0x2077, [0x0037]), (0x2078, [0x0038]), (0x2079, [0x0039]), (0x207A, [0x002B]),
    (0x207B, [0x2212]), (0x207C, [0x003D]), (0x207D, [0x0028]), (0x207E, [0x0029]),
    (0x207F, [0x006E]), (0x2080, [0x0030]), (0x2081, [0x0031]), (0x2082, [0x0032]),
    (0x2083, [0x0033]), (0x2084, [0x0034]), (0x2085, [0x0035]), (0x2086, [0x0036]),
    (0x2087, [0x0037]), (0x2088, [0x0038]), (0x2089, [0x0039]), (0x208A, [0x002B]),
    (0x208B, [0x2212]), (0x208C, [0x003D]), (0x208D, [0x0028]), (0x208E, [0x0029]),
    (0x2090, [0x0061]), (0x2091, [0x0065]), (0x2092, [0x006F]), (0x2093, [0x0078]),
    (0x2094, [0x0259]), (0x2095, [0x0068]), (0x2096, [0x006B]), (0x2097, [0x006C]),
    (0x2098, [0x006D]), (0x2099, [0x006E]), (0x209A, [0x0070]), (0x209B, [0x0073]),
    (0x209C, [0x0074]), (0x20A8, [0x0052, 0x0073]), (0x2100, [0x0061, 0x002F, 0x0063]),
    (0x2101, [0x0061, 0x002F, 0x0073]), (0x2102, [0x0043]), (0x2103, [0x00B0, 0x0043]),
    (0x2105, [0x0063, 0x002F, 0x006F]), (0x2106, [0x0063, 0x002F, 0x0075]), (0x2107, [0x0190]),
    (0x2109, [0x00B0, 0x0046]), (0x210A, [0x0067]), (0x210B, [0x0048]), (0x210C, [0x0048]),
    (0x210D, [0x0048]), (0x210E, [0x0068]), (0x210F, [0x0127]), (0x2110, [0x0049]),
    (0x2111, [0x0049]), (0x2112, [0x004C]), (0x2113, [0x006C]), (0x2115, [0x004E]),
    (0x2116, [0x004E, 0x006F]), (0x2119, [0x0050]), (0x211A, [0x0051]), (0x211B, [0x0052]),
    (0x211C, [0x0052]), (0x211D, [0x0052]), (0x2120, [0x0053, 0x004D]),
    (0x2121, [0x0054, 0x0045, 0x004C]), (0x2122, [0x0054, 0x004D]), (0x2124, [0x005A]),
    (0x2126, [0x03A9]), (0x2128, [0x005A]), (0x212A, [0x004B]), (0x212B, [0x0041, 0x030A]),
    (0x212C, [0x0042]), (0x212D, [0x0043]), (0x212F, [0x0065]), (0x2130, [0x0045]),
    (0x2131, [0x0046]), (0x2133, [0x004D]), (0x2134, [0x006F]), (0x2135, [0x05D0]),
    (0x2136, [0x05D1]), (0x2137, [0x05D2]), (0x2138, [0x05D3]), (0x2139, [0x0069]),
    (0x213B, [0x0046, 0x0041, 0x0058]), (0x213C, [0x03C0]), (0x213D, [0x03B3]), (0x213E, [0x0393]),
    (0x213F, [0x03A0]), (0x2140, [0x2211]), (0x2145, [0x0044]), (0x2146, [0x0064]),
    (0x2147, [0x0065]), (0x2148, [0x0069]), (0x2149, [0x006A]), (0x2150, [0x0031, 0x2044, 0x0037]),
    (0x2151, [0x0031, 0x2044, 0x0039]), (0x2152, [0x0031, 0x2044, 0x0031, 0x0030]),
    (0x2153, [0x0031, 0x2044, 0x0033]), (0x2154, [0x0032, 0x2044, 0x0033]),
    (0x2155, [0x0031, 0x2044, 0x0035]), (0x2156, [0x0032, 0x2044, 0x0035]),
    (0x2157, [0x0033, 0x2044, 0x0035]), (0x2158, [0x0034, 0x2044, 0x0035]),
    (0x2159, [0x0031, 0x2044, 0x0036]), (0x215A, [0x0035, 0x2044, 0x0036]),
    (0x215B, [0x0031, 0x2044, 0x0038]), (0x215C, [0x0033, 0x2044, 0x0038]),
    (0x215D, [0x0035, 0x2044, 0x0038]), (0x215E, [0x0037, 0x2044, 0x0038]),
    (0x215F, [0x0031, 0x2044]), (0x2160, [0x0049]), (0x2161, [0x0049, 0x0049]),
    (0x2162, [0x0049, 0x0049, 0x0049]), (0x2163, [0x0049, 0x0056]), (0x2164, [0x0056]),
    (0x2165, [0x0056, 0x0049]), (0x2166, [0x0056, 0x0049, 0x0049]),
    (0x2167, [0x0056, 0x0049, 0x0049, 0x0049]), (0x2168, [0x0049, 0x0058]), (0x2169, [0x0058]),
    (0x216A, [0x0058, 0x0049]), (0x216B, [0x0058, 0x0049, 0x0049]), (0x216C, [0x004C]),
    (0x216D, [0x0043]), (0x216E, [0x0044]), (0x216F, [0x004D]), (0x2170, [0x0069]),
    (0x2171, [0x0069, 0x0069]), (0x2172, [0x0069, 0x0069, 0x0069]), (0x2173, [0x0069, 0x0076]),
    (0x2174, [0x0076]), (0x2175, [0x0076, 0x0069]), (0x2176, [0x0076, 0x0069, 0x0069]),
    (0x2177, [0x0076, 0x0069, 0x0069, 0x0069]), (0x2178, [0x0069, 0x0078]), (0x2179, [0x0078]),
    (0x217A, [0x0078, 0x0069]), (0x217B, [0x0078, 0x0069, 0x0069]), (0x217C, [0x006C]),
    (0x217D, [0x0063]), (0x217E, [0x0064]), (0x217F, [0x006D]), (0x2189, [0x0030, 0x2044, 0x0033]),
    (0x2460, [0x0031]), (0x2461, [0x0032]), (0x2462, [0x0033]), (0x2463, [0x0034]),
    (0x2464, [0x0035]), (0x2465, [0x0036]), (0x2466, [0x0037]), (0x2467, [0x0038]),
    (0x2468, [0x0039]), (0x2469, [0x0031, 0x0030]), (0x246A, [0x0031, 0x0031]),
    (0x246B, [0x0031, 0x0032]), (0x246C, [0x0031, 0x0033]), (0x246D, [0x0031, 0x0034]),
    (0x246E, [0x0031, 0x0035]), (0x246F, [0x0031, 0x0036]), (0x2470, [0x0031, 0x0037]),
    (0x2471, [0x0031, 0x0038]), (0x2472, [0x0031, 0x0039]), (0x2473, [0x0032, 0x0030]),
    (0x2474, [0x0028, 0x0031, 0x0029]), (0x2475, [0x0028, 0x0032, 0x0029]),
    (0x2476, [0x0028, 0x0033, 0x0029]), (0x2477, [0x0028, 0x0034, 0x0029]),
    (0x2478, [0x0028, 0x0035, 0x0029]), (0x2479, [0x0028, 0x0036, 0x0029]),
    (0x247A, [0x0028, 0x0037, 0x0029]), (0x247B, [0x0028, 0x0038, 0x0029]),
    (0x247C, [0x0028, 0x0039, 0x0029]), (0x247D, [0x0028, 0x0031, 0x0030, 0x0029]),
    (0x247E, [0x0028, 0x0031, 0x0031, 0x0029]), (0x247F, [0x0028, 0x0031, 0x0032, 0x0029]),
    (0x2480, [0x0028, 0x0031, 0x0033, 0x0029]), (0x2481, [0x0028, 0x0031, 0x0034, 0x0029]),
    (0x2482, [0x0028, 0x0031, 0x0035, 0x0029]), (0x2483, [0x0028, 0x0031, 0x0036, 0x0029]),
    (0x2484, [0x0028, 0x0031, 0x0037, 0x0029]), (0x2485, [0x0028, 0x0031, 0x0038, 0x0029]),
    (0x2486, [0x0028, 0x0031, 0x0039, 0x0029]), (0x2487, [0x0028, 0x0032, 0x0030, 0x0029]),
    (0x2488, [0x0031, 0x002E]), (0x2489, [0x0032, 0x002E]), (0x248A, [0x0033, 0x002E]),
    (0x248B, [0x0034, 0x002E]), (0x248C, [0x0035, 0x002E]), (0x248D, [0x0036, 0x002E]),
    (0x248E, [0x0037, 0x002E]), (0x248F, [0x0038, 0x002E]), (0x2490, [0x0039, 0x002E]),
    (0x2491, [0x0031, 0x0030, 0x002E]), (0x2492, [0x0031, 0x0031, 0x002E]),
    (0x2493, [0x0031, 0x0032, 0x002E]), (0x2494, [0x0031, 0x0033, 0x002E]),
    (0x2495, [0x0031, 0x0034, 0x002E]), (0x2496, [0x0031, 0x0035, 0x002E]),
    (0x2497, [0x0031, 0x0036, 0x002E]), (0x2498, [0x0031, 0x0037, 0x002E]),
    (0x2499, [0x0031, 0x0038, 0x002E]), (0x249A, [0x0031, 0x0039, 0x002E]),
    (0x249B, [0x0032, 0x0030, 0x002E]), (0x249C, [0x0028, 0x0061, 0x0029]),
    (0x249D, [0x0028, 0x0062, 0x0029]), (0x249E, [0x0028, 0x0063, 0x0029]),
    (0x249F, [0x0028, 0x0064, 0x0029]), (0x24A0, [0x0028, 0x0065, 0x0029]),
    (0x24A1, [0x0028, 0x0066, 0x0029]), (0x24A2, [0x0028, 0x0067, 0x0029]),
    (0x24A3, [0x0028, 0x0068, 0x0029]), (0x24A4, [0x0028, 0x0069, 0x0029]),
    (0x24A5, [0x0028, 0x006A, 0x0029]), (0x24A6, [0x0028, 0x006B, 0x0029]),
    (0x24A7, [0x0028, 0x006C, 0x0029]), (0x24A8, [0x0028, 0x006D, 0x0029]),
    (0x24A9, [0x0028, 0x006E, 0x0029]), (0x24AA, [0x0028, 0x006F, 0x0029]),
    (0x24AB, [0x0028, 0x0070, 0x0029]), (0x24AC, [0x0028, 0x0071, 0x0029]),
    (0x24AD, [0x0028, 0x0072, 0x0029]), (0x24AE, [0x0028, 0x0073, 0x0029]),
    (0x24AF, [0x0028, 0x0074, 0x0029]), (0x24B0, [0x0028, 0x0075, 0x0029]),
    (0x24B1, [0x0028, 0x0076, 0x0029]), (0x24B2, [0x0028, 0x0077, 0x0029]),
    (0x24B3, [0x0028, 0x0078, 0x0029]), (0x24B4, [0x0028, 0x0079, 0x0029])]

def mtlNfkdTable3 : List (ℕ × List ℕ) :=
  [(0x24B5, [0x0028, 0x007A, 0x0029]), (0x24B6, [0x0041]), (0x24B7, [0x0042]), (0x24B8, [0x0043]),
    (0x24B9, [0x0044]), (0x24BA, [0x0045]), (0x24BB, [0x0046]), (0x24BC, [0x0047]),
    (0x24BD, [0x0048]), (0x24BE, [0x0049]), (0x24BF, [0x004A]), (0x24C0, [0x004B]),
    (0x24C1, [0x004C]), (0x24C2, [0x004D]), (0x24C3, [0x004E]), (0x24C4, [0x004F]),
    (0x24C5, [0x0050]), (0x24C6, [0x0051]), (0x24C7, [0x0052]), (0x24C8, [0x0053]),
    (0x24C9, [0x0054]), (0x24CA, [0x0055]), (0x24CB, [0x0056]), (0x24CC, [0x0057]),
    (0x24CD, [0x0058]), (0x24CE, [0x0059]), (0x24CF, [0x005A]), (0x24D0, [0x0061]),
    (0x24D1, [0x0062]), (0x24D2, [0x0063]), (0x24D3, [0x0064]), (0x24D4, [0x0065]),
    (0x24D5, [0x0066]), (0x24D6, [0x0067]), (0x24D7, [0x0068]), (0x24D8, [0x0069]),
    (0x24D9, [0x006A]), (0x24DA, [0x006B]), (0x24DB, [0x006C]), (0x24DC, [0x006D]),
    (0x24DD, [0x006E]), (0x24DE, [0x006F]), (0x24DF, [0x0070]), (0x24E0, [0x0071]),
    (0x24E1, [0x0072]), (0x24E2, [0x0073]), (0x24E3, [0x0074]), (0x24E4, [0x0075]),
    (0x24E5, [0x0076]), (0x24E6, [0x0077]), (0x24E7, [0x0078]), (0x24E8, [0x0079]),
    (0x24E9, [0x007A]), (0x24EA, [0x0030]), (0x3000, [0x0020]), (0x3036, [0x3012]),
    (0x3038, [0x5341]), (0x3039, [0x5344]), (0x303A, [0x5345]), (0x304C, [0x304B, 0x3099]),
    (0x304E, [0x304D, 0x3099]), (0x3050, [0x304F, 0x3099]), (0x3052, [0x3051, 0x3099]),
    (0x3054, [0x3053, 0x3099]), (0x3056, [0x3055, 0x3099]), (0x3058, [0x3057, 0x3099]),
    (0x305A, [0x3059, 0x3099]), (0x305C, [0x305B, 0x3099]), (0x305E, [0x305D, 0x3099]),
    (0x3060, [0x305F, 0x3099]), (0x3062, [0x3061, 0x3099]), (0x3065, [0x3064, 0x3099]),
    (0x3067, [0x3066, 0x3099]), (0x3069, [0x3068, 0x3099]), (0x3070, [0x306F, 0x3099]),
    (0x3071, [0x306F, 0x309A]), (0x3073, [0x3072, 0x3099]), (0x3074, [0x3072, 0x309A]),
    (0x3076, [0x3075, 0x3099]), (0x3077, [0x3075, 0x309A]), (0x3079, [0x3078, 0x3099]),
    (0x307A, [0x3078, 0x309A]), (0x307C, [0x307B, 0x3099]), (0x307D, [0x307B, 0x309A]),
    (0x3094, [0x3046, 0x3099]), (0x309B, [0x0020, 0x3099]), (0x309C, [0x0020, 0x309A]),
    (0x309E, [0x309D, 0x3099]), (0x309F, [0x3088, 0x308A]), (0x30AC, [0x30AB, 0x3099]),
    (0x30AE, [0x30AD, 0x3099]), (0x30B0, [0x30AF, 0x3099]), (0x30B2, [0x30B1, 0x3099]),
    (0x30B4, [0x30B3, 0x3099]), (0x30B6, [0x30B5, 0x3099]), (0x30B8, [0x30B7, 0x3099]),
    (0x30BA, [0x30B9, 0x3099]), (0x30BC, [0x30BB, 0x3099]), (0x30BE, [0x30BD, 0x3099]),
    (0x30C0, [0x30BF, 0x3099]), (0x30C2, [0x30C1, 0x3099]), (0x30C5, [0x30C4, 0x3099]),
    (0x30C7, [0x30C6, 0x3099]), (0x30C9, [0x30C8, 0x3099]), (0x30D0, [0x30CF, 0x3099]),
    (0x30D1, [0x30CF, 0x309A]), (0x30D3, [0x30D2, 0x3099]), (0x30D4, [0x30D2, 0x309A]),
    (0x30D6, [0x30D5, 0x3099]), (0x30D7, [0x30D5, 0x309A]), (0x30D9, [0x30D8, 0x3099]),
    (0x30DA, [0x30D8, 0x309A]), (0x30DC, [0x30DB, 0x3099]), (0x30DD, [0x30DB, 0x309A]),
    (0x30F4, [0x30A6, 0x3099]), (0x30F7, [0x30EF, 0x3099]), (0x30F8, [0x30F0, 0x3099]),
    (0x30F9, [0x30F1, 0x3099]), (0x30FA, [0x30F2, 0x3099]), (0x30FE, [0x30FD, 0x3099]),
    (0x30FF, [0x30B3, 0x30C8]), (0x3131, [0x1100]), (0x3132, [0x1101]), (0x3133, [0x11AA]),
    (0x3134, [0x1102]), (0x3135, [0x11AC]), (0x3136, [0x11AD]), (0x3137, [0x1103]),
    (0x3138, [0x1104]), (0x3139, [0x1105]), (0x313A, [0x11B0]), (0x313B, [0x11B1]),
    (0x313C, [0x11B2]), (0x313D, [0x11B3]), (0x313E, [0x11B4]), (0x313F, [0x11B5]),
    (0x3140, [0x111A]), (0x3141, [0x1106]), (0x3142, [0x1107]), (0x3143, [0x1108]),
    (0x3144, [0x1121]), (0x3145, [0x1109]), (0x3146, [0x110A]), (0x3147, [0x110B]),
    (0x3148, [0x110C]), (0x3149, [0x110D]), (0x314A, [0x110E]), (0x314B, [0x110F]),
    (0x314C, [0x1110]), (0x314D, [0x1111]), (0x314E, [0x1112]), (0x314F, [0x1161]),
    (0x3150, [0x1162]), (0x3151, [0x1163]), (0x3152, [0x1164]), (0x3153, [0x1165]),
    (0x3154, [0x1166]), (0x3155, [0x1167]), (0x3156, [0x1168]), (0x3157, [0x1169]),
    (0x3158, [0x116A]), (0x3159, [0x116B]), (0x315A, [0x116C]), (0x315B, [0x116D]),
    (0x315C, [0x116E]), (0x315D, [0x116F]), (0x315E, [0x1170]), (0x315F, [0x1171]),
    (0x3160, [0x1172]), (0x3161, [0x1173]), (0x3162, [0x1174]), (0x3163, [0x1175]),
    (0x3164, [0x1160]), (0x3165, [0x1114]), (0x3166, [0x1115]), (0x3167, [0x11C7]),
    (0x3168, [0x11C8]), (0x3169, [0x11CC]), (0x316A, [0x11CE]), (0x316B, [0x11D3]),
    (0x316C, [0x11D7]), (0x316D, [0x11D9]), (0x316E, [0x111C]), (0x316F, [0x11DD]),
    (0x3170, [0x11DF]), (0x3171, [0x111D]), (0x3172, [0x111E]), (0x3173, [0x1120]),
    (0x3174, [0x1122]), (0x3175, [0x1123]), (0x3176, [0x1127]), (0x3177, [0x1129]),
    (0x3178, [0x112B]), (0x3179, [0x112C]), (0x317A, [0x112D]), (0x317B, [0x112E]),
    (0x317C, [0x112F]), (0x317D, [0x1132]), (0x317E, [0x1136]), (0x317F, [0x1140]),
    (0x3180, [0x1147]), (0x3181, [0x114C]), (0x3182, [0x11F1]), (0x3183, [0x11F2]),
    (0x3184, [0x1157]), (0x3185, [0x1158]), (0x3186, [0x1159]), (0x3187, [0x1184]),
    (0x3188, [0x1185]), (0x3189, [0x1188]), (0x318A, [0x1191]), (0x318B, [0x1192]),
    (0x318C, [0x1194]), (0x318D, [0x119E]), (0x318E, [0x11A1]), (0xFB00, [0x0066, 0x0066]),
    (0xFB01, [0x0066, 0x0069]), (0xFB02, [0x0066, 0x006C]), (0xFB03, [0x0066, 0x0066, 0x0069]),
    (0xFB04, [0x0066, 0x0066, 0x006C]), (0xFB05, [0x0073, 0x0074]), (0xFB06, [0x0073, 0x0074]),
    (0xFB13, [0x0574, 0x0576]), (0xFB14, [0x0574, 0x0565]), (0xFB15, [0x0574, 0x056B]),
    (0xFB16, [0x057E, 0x0576]), (0xFB17, [0x0574, 0x056D]), (0xFB1D, [0x05D9, 0x05B4]),
    (0xFB1F, [0x05F2, 0x05B7]), (0xFB20, [0x05E2]), (0xFB21, [0x05D0]), (0xFB22, [0x05D3]),
    (0xFB23, [0x05D4]), (0xFB24, [0x05DB]), (0xFB25, [0x05DC]), (0xFB26, [0x05DD]),
    (0xFB27, [0x05E8]), (0xFB28, [0x05EA]), (0xFB29, [0x002B]), (0xFB2A, [0x05E9, 0x05C1]),
    (0xFB2B, [0x05E9, 0x05C2]), (0xFB2C, [0x05E9, 0x05BC, 0x05C1]),
    (0xFB2D, [0x05E9, 0x05BC, 0x05C2]), (0xFB2E, [0x05D0, 0x05B7]), (0xFB2F, [0x05D0, 0x05B8]),
    (0xFB30, [0x05D0, 0x05BC]), (0xFB31, [0x05D1, 0x05BC]), (0xFB32, [0x05D2, 0x05BC]),
    (0xFB33, [0x05D3, 0x05BC]), (0xFB34, [0x05D4, 0x05BC]), (0xFB35, [0x05D5, 0x05BC]),
    (0xFB36, [0x05D6, 0x05BC]), (0xFB38, [0x05D8, 0x05BC]), (0xFB39, [0x05D9, 0x05BC]),
    (0xFB3A, [0x05DA, 0x05BC]), (0xFB3B, [0x05DB, 0x05BC]), (0xFB3C, [0x05DC, 0x05BC]),
    (0xFB3E, [0x05DE, 0x05BC]), (0xFB40, [0x05E0, 0x05BC]), (0xFB41, [0x05E1, 0x05BC]),
    (0xFB43, [0x05E3, 0x05BC]), (0xFB44, [0x05E4, 0x05BC]), (0xFB46, [0x05E6, 0x05BC]),
    (0xFB47, [0x05E7, 0x05BC]), (0xFB48, [0x05E8, 0x05BC]), (0xFB49, [0x05E9, 0x05BC]),
    (0xFB4A, [0x05EA, 0x05BC]), (0xFB4B, [0x05D5, 0x05B9]), (0xFB4C, [0x05D1, 0x05BF]),
    (0xFB4D, [0x05DB, 0x05BF]), (0xFB4E, [0x05E4, 0x05BF]), (0xFB4F, [0x05D0, 0x05DC]),
    (0xFB50, [0x0671]), (0xFB51, [0x0671]), (0xFB52, [0x067B]), (0xFB53, [0x067B]),
    (0xFB54, [0x067B]), (0xFB55, [0x067B]), (0xFB56, [0x067E]), (0xFB57, [0x067E]),
    (0xFB58, [0x067E]), (0xFB59, [0x067E]), (0xFB5A, [0x0680]), (0xFB5B, [0x0680]),
    (0xFB5C, [0x0680]), (0xFB5D, [0x0680]), (0xFB5E, [0x067A]), (0xFB5F, [0x067A]),
    (0xFB60, [0x067A]), (0xFB61, [0x067A]), (0xFB62, [0x067F]), (0xFB63, [0x067F]),
    (0xFB64, [0x067F]), (0xFB65, [0x067F]), (0xFB66, [0x0679]), (0xFB67, [0x0679]),
    (0xFB68, [0x0679]), (0xFB69, [0x0679]), (0xFB6A, [0x06A4]), (0xFB6B, [0x06A4]),
    (0xFB6C, [0x06A4]), (0xFB6D, [0x06A4]), (0xFB6E, [0x06A6]), (0xFB6F, [0x06A6]),
    (0xFB70, [0x06A6]), (0xFB71, [0x06A6]), (0xFB72, [0x0684]), (0xFB73, [0x0684]),
    (0xFB74, [0x0684]), (0xFB75, [0x0684]), (0xFB76, [0x0683]), (0xFB77, [0x0683]),
    (0xFB78, [0x0683]), (0xFB79, [0x0683]), (0xFB7A, [0x0686]), (0xFB7B, [0x0686]),
    (0xFB7C, [0x0686]), (0xFB7D, [0x0686]), (0xFB7E, [0x0687]), (0xFB7F, [0x0687]),
    (0xFB80, [0x0687]), (0xFB81, [0x0687]), (0xFB82, [0x068D]), (0xFB83, [0x068D]),
    (0xFB84, [0x068C]), (0xFB85, [0x068C]), (0xFB86, [0x068E]), (0xFB87, [0x068E]),
    (0xFB88, [0x0688]), (0xFB89, [0x0688]), (0xFB8A, [0x0698]), (0xFB8B, [0x0698]),
    (0xFB8C, [0x0691]), (0xFB8D, [0x0691]), (0xFB8E, [0x06A9]), (0xFB8F, [0x06A9]),
    (0xFB90, [0x06A9]), (0xFB91, [0x06A9]), (0xFB92, [0x06AF]), (0xFB93, [0x06AF]),
    (0xFB94, [0x06AF]), (0xFB95, [0x06AF]), (0xFB96, [0x06B3]), (0xFB97, [0x06B3]),
    (0xFB98, [0x06B3]), (0xFB99, [0x06B3]), (0xFB9A, [0x06B1]), (0xFB9B, [0x06B1]),
    (0xFB9C, [0x06B1]), (0xFB9D, [0x06B1]), (0xFB9E, [0x06BA]), (0xFB9F, [0x06BA]),
    (0xFBA0, [0x06BB]), (0xFBA1, [0x06BB]), (0xFBA2, [0x06BB]), (0xFBA3, [0x06BB]),
    (0xFBA4, [0x06D5, 0x0654]), (0xFBA5, [0x06D5, 0x0654]), (0xFBA6, [0x06C1]), (0xFBA7, [0x06C1]),
    (0xFBA8, [0x06C1]), (0xFBA9, [0x06C1]), (0xFBAA, [0x06BE]), (0xFBAB, [0x06BE]),
    (0xFBAC, [0x06BE]), (0xFBAD, [0x06BE]), (0xFBAE, [0x06D2]), (0xFBAF, [0x06D2]),
    (0xFBB0, [0x06D2, 0x0654]), (0xFBB1, [0x06D2, 0x0654]), (0xFBD3, [0x06AD]), (0xFBD4, [0x06AD]),
    (0xFBD5, [0x06AD]), (0xFBD6, [0x06AD]), (0xFBD7, [0x06C7]), (0xFBD8, [0x06C7]),
    (0xFBD9, [0x06C6]), (0xFBDA, [0x06C6]), (0xFBDB, [0x06C8]), (0xFBDC, [0x06C8]),
    (0xFBDD, [0x06C7, 0x0674]), (0xFBDE, [0x06CB]), (0xFBDF, [0x06CB]), (0xFBE0, [0x06C5]),
    (0xFBE1, [0x06C5]), (0xFBE2, [0x06C9]), (0xFBE3, [0x06C9]), (0xFBE4, [0x06D0]),
    (0xFBE5, [0x06D0]), (0xFBE6, [0x06D0]), (0xFBE7, [0x06D0]), (0xFBE8, [0x0649]),
    (0xFBE9, [0x0649]), (0xFBEA, [0x064A, 0x0654, 0x0627]), (0xFBEB, [0x064A, 0x0654, 0x0627]),
    (0xFBEC, [0x064A, 0x0654, 0x06D5]), (0xFBED, [0x064A, 0x0654, 0x06D5]),
    (0xFBEE, [0x064A, 0x0654, 0x0648]), (0xFBEF, [0x064A, 0x0654, 0x0648]),
    (0xFBF0, [0x064A, 0x0654, 0x06C7]), (0xFBF1, [0x064A, 0x0654, 0x06C7]),
    (0xFBF2, [0x064A, 0x0654, 0x06C6]), (0xFBF3, [0x064A, 0x0654, 0x06C6]),
    (0xFBF4, [0x064A, 0x0654, 0x06C8]), (0xFBF5, [0x064A, 0x0654, 0x06C8]),
    (0xFBF6, [0x064A, 0x0654, 0x06D0]), (0xFBF7, [0x064A, 0x0654, 0x06D0]),
    (0xFBF8, [0x064A, 0x0654, 0x06D0]), (0xFBF9, [0x064A, 0x0654, 0x0649]),
    (0xFBFA, [0x064A, 0x0654, 0x0649]), (0xFBFB, [0x064A, 0x0654, 0x0649]), (0xFBFC, [0x06CC]),
    (0xFBFD, [0x06CC]), (0xFBFE, [0x06CC]), (0xFBFF, [0x06CC]), (0xFC00, [0x064A, 0x0654, 0x062C]),
    (0xFC01, [0x064A, 0x0654, 0x062D]), (0xFC02, [0x064A, 0x0654, 0x0645]),
    (0xFC03, [0x064A, 0x0654, 0x0649]), (0xFC04, [0x064A, 0x0654, 0x064A])]

def mtlNfkdTable4 : List (ℕ × List ℕ) :=
  [(0xFC05, [0x0628, 0x062C]), (0xFC06, [0x0628, 0x062D]), (0xFC07, [0x0628, 0x062E]),
    (0xFC08, [0x0628, 0x0645]), (0xFC09, [0x0628, 0x0649]), (0xFC0A, [0x0628, 0x064A]),
    (0xFC0B, [0x062A, 0x062C]), (0xFC0C, [0x062A, 0x062D]), (0xFC0D, [0x062A, 0x062E]),
    (0xFC0E, [0x062A, 0x0645]), (0xFC0F, [0x062A, 0x0649]), (0xFC10, [0x062A, 0x064A]),
    (0xFC11, [0x062B, 0x062C]), (0xFC12, [0x062B, 0x0645]), (0xFC13, [0x062B, 0x0649]),
    (0xFC14, [0x062B, 0x064A]), (0xFC15, [0x062C, 0x062D]), (0xFC16, [0x062C, 0x0645]),
    (0xFC17, [0x062D, 0x062C]), (0xFC18, [0x062D, 0x0645]), (0xFC19, [0x062E, 0x062C]),
    (0xFC1A, [0x062E, 0x062D]), (0xFC1B, [0x062E, 0x0645]), (0xFC1C, [0x0633, 0x062C]),
    (0xFC1D, [0x0633, 0x062D]), (0xFC1E, [0x0633, 0x062E]), (0xFC1F, [0x0633, 0x0645]),
    (0xFC20, [0x0635, 0x062D]), (0xFC21, [0x0635, 0x0645]), (0xFC22, [0x0636, 0x062C]),
    (0xFC23, [0x0636, 0x062D]), (0xFC24, [0x0636, 0x062E]), (0xFC25, [0x0636, 0x0645]),
    (0xFC26, [0x0637, 0x062D]), (0xFC27, [0x0637, 0x0645]), (0xFC28, [0x0638, 0x0645]),
    (0xFC29, [0x0639, 0x062C]), (0xFC2A, [0x0639, 0x0645]), (0xFC2B, [0x063A, 0x062C]),
    (0xFC2C, [0x063A, 0x0645]), (0xFC2D, [0x0641, 0x062C]), (0xFC2E, [0x0641, 0x062D]),
    (0xFC2F, [0x0641, 0x062E]), (0xFC30, [0x0641, 0x0645]), (0xFC31, [0x0641, 0x0649]),
    (0xFC32, [0x0641, 0x064A]), (0xFC33, [0x0642, 0x062D]), (0xFC34, [0x0642, 0x0645]),
    (0xFC35, [0x0642, 0x0649]), (0xFC36, [0x0642, 0x064A]), (0xFC37, [0x0643, 0x0627]),
    (0xFC38, [0x0643, 0x062C]), (0xFC39, [0x0643, 0x062D]), (0xFC3A, [0x0643, 0x062E]),
    (0xFC3B, [0x0643, 0x0644]), (0xFC3C, [0x0643, 0x0645]), (0xFC3D, [0x0643, 0x0649]),
    (0xFC3E, [0x0643, 0x064A]), (0xFC3F, [0x0644, 0x062C]), (0xFC40, [0x0644, 0x062D]),
    (0xFC41, [0x0644, 0x062E]), (0xFC42, [0x0644, 0x0645]), (0xFC43, [0x0644, 0x0649]),
    (0xFC44, [0x0644, 0x064A]), (0xFC45, [0x0645, 0x062C]), (0xFC46, [0x0645, 0x062D]),
    (0xFC47, [0x0645, 0x062E]), (0xFC48, [0x0645, 0x0645]), (0xFC49, [0x0645, 0x0649]),
    (0xFC4A, [0x0645, 0x064A]), (0xFC4B, [0x0646, 0x062C]), (0xFC4C, [0x0646, 0x062D]),
    (0xFC4D, [0x0646, 0x062E]), (0xFC4E, [0x0646, 0x0645]), (0xFC4F, [0x0646, 0x0649]),
    (0xFC50, [0x0646, 0x064A]), (0xFC51, [0x0647, 0x062C]), (0xFC52, [0x0647, 0x0645]),
    (0xFC53, [0x0647, 0x0649]), (0xFC54, [0x0647, 0x064A]), (0xFC55, [0x064A, 0x062C]),
    (0xFC56, [0x064A, 0x062D]), (0xFC57, [0x064A, 0x062E]), (0xFC58, [0x064A, 0x0645]),
    (0xFC59, [0x064A, 0x0649]), (0xFC5A, [0x064A, 0x064A]), (0xFC5B, [0x0630, 0x0670]),
    (0xFC5C, [0x0631, 0x0670]), (0xFC5D, [0x0649, 0x0670]), (0xFC5E, [0x0020, 0x064C, 0x0651]),
    (0xFC5F, [0x0020, 0x064D, 0x0651]), (0xFC60, [0x0020, 0x064E, 0x0651]),
    (0xFC61, [0x0020, 0x064F, 0x0651]), (0xFC62, [0x0020, 0x0650, 0x0651]),
    (0xFC63, [0x0020, 0x0651, 0x0670]), (0xFC64, [0x064A, 0x0654, 0x0631]),
    (0xFC65, [0x064A, 0x0654, 0x0632]), (0xFC66, [0x064A, 0x0654, 0x0645]),
    (0xFC67, [0x064A, 0x0654, 0x0646]), (0xFC68, [0x064A, 0x0654, 0x0649]),
    (0xFC69, [0x064A, 0x0654, 0x064A]), (0xFC6A, [0x0628, 0x0631]), (0xFC6B, [0x0628, 0x0632]),
    (0xFC6C, [0x0628, 0x0645]), (0xFC6D, [0x0628, 0x0646]), (0xFC6E, [0x0628, 0x0649]),
    (0xFC6F, [0x0628, 0x064A]), (0xFC70, [0x062A, 0x0631]), (0xFC71, [0x062A, 0x0632]),
    (0xFC72, [0x062A, 0x0645]), (0xFC73, [0x062A, 0x0646]), (0xFC74, [0x062A, 0x0649]),
    (0xFC75, [0x062A, 0x064A]), (0xFC76, [0x062B, 0x0631]), (0xFC77, [0x062B, 0x0632]),
    (0xFC78, [0x062B, 0x0645]), (0xFC79, [0x062B, 0x0646]), (0xFC7A, [0x062B, 0x0649]),
    (0xFC7B, [0x062B, 0x064A]), (0xFC7C, [0x0641, 0x0649]), (0xFC7D, [0x0641, 0x064A]),
    (0xFC7E, [0x0642, 0x0649]), (0xFC7F, [0x0642, 0x064A]), (0xFC80, [0x0643, 0x0627]),
    (0xFC81, [0x0643, 0x0644]), (0xFC82, [0x0643, 0x0645]), (0xFC83, [0x0643, 0x0649]),
    (0xFC84, [0x0643, 0x064A]), (0xFC85, [0x0644, 0x0645]), (0xFC86, [0x0644, 0x0649]),
    (0xFC87, [0x0644, 0x064A]), (0xFC88, [0x0645, 0x0627]), (0xFC89, [0x0645, 0x0645]),
    (0xFC8A, [0x0646, 0x0631]), (0xFC8B, [0x0646, 0x0632]), (0xFC8C, [0x0646, 0x0645]),
    (0xFC8D, [0x0646, 0x0646]), (0xFC8E, [0x0646, 0x0649]), (0xFC8F, [0x0646, 0x064A]),
    (0xFC90, [0x0649, 0x0670]), (0xFC91, [0x064A, 0x0631]), (0xFC92, [0x064A, 0x0632]),
    (0xFC93, [0x064A, 0x0645]), (0xFC94, [0x064A, 0x0646]), (0xFC95, [0x064A, 0x0649]),
    (0xFC96, [0x064A, 0x064A]), (0xFC97, [0x064A, 0x0654, 0x062C]),
    (0xFC98, [0x064A, 0x0654, 0x062D]), (0xFC99, [0x064A, 0x0654, 0x062E]),
    (0xFC9A, [0x064A, 0x0654, 0x0645]), (0xFC9B, [0x064A, 0x0654, 0x0647]),
    (0xFC9C, [0x0628, 0x062C]), (0xFC9D, [0x0628, 0x062D]), (0xFC9E, [0x0628, 0x062E]),
    (0xFC9F, [0x0628, 0x0645]), (0xFCA0, [0x0628, 0x0647]), (0xFCA1, [0x062A, 0x062C]),
    (0xFCA2, [0x062A, 0x062D]), (0xFCA3, [0x062A, 0x062E]), (0xFCA4, [0x062A, 0x0645]),
    (0xFCA5, [0x062A, 0x0647]), (0xFCA6, [0x062B, 0x0645]), (0xFCA7, [0x062C, 0x062D]),
    (0xFCA8, [0x062C, 0x0645]), (0xFCA9, [0x062D, 0x062C]), (0xFCAA, [0x062D, 0x0645]),
    (0xFCAB, [0x062E, 0x062C]), (0xFCAC, [0x062E, 0x0645]), (0xFCAD, [0x0633, 0x062C]),
    (0xFCAE, [0x0633, 0x062D]), (0xFCAF, [0x0633, 0x062E]), (0xFCB0, [0x0633, 0x0645]),
    (0xFCB1, [0x0635, 0x062D]), (0xFCB2, [0x0635, 0x062E]), (0xFCB3, [0x0635, 0x0645]),
    (0xFCB4, [0x0636, 0x062C]), (0xFCB5, [0x0636, 0x062D]), (0xFCB6, [0x0636, 0x062E]),
    (0xFCB7, [0x0636, 0x0645]), (0xFCB8, [0x0637, 0x062D]), (0xFCB9, [0x0638, 0x0645]),
    (0xFCBA, [0x0639, 0x062C]), (0xFCBB, [0x0639, 0x0645]), (0xFCBC, [0x063A, 0x062C]),
    (0xFCBD, [0x063A, 0x0645]), (0xFCBE, [0x0641, 0x062C]), (0xFCBF, [0x0641, 0x062D]),
    (0xFCC0, [0x0641, 0x062E]), (0xFCC1, [0x0641, 0x0645]), (0xFCC2, [0x0642, 0x062D]),
    (0xFCC3, [0x0642, 0x0645]), (0xFCC4, [0x0643, 0x062C]), (0xFCC5, [0x0643, 0x062D]),
    (0xFCC6, [0x0643, 0x062E]), (0xFCC7, [0x0643, 0x0644]), (0xFCC8, [0x0643, 0x0645]),
    (0xFCC9, [0x0644, 0x062C]), (0xFCCA, [0x0644, 0x062D]), (0xFCCB, [0x0644, 0x062E]),
    (0xFCCC, [0x0644, 0x0645]), (0xFCCD, [0x0644, 0x0647]), (0xFCCE, [0x0645, 0x062C]),
    (0xFCCF, [0x0645, 0x062D]), (0xFCD0, [0x0645, 0x062E]), (0xFCD1, [0x0645, 0x0645]),
    (0xFCD2, [0x0646, 0x062C]), (0xFCD3, [0x0646, 0x062D]), (0xFCD4, [0x0646, 0x062E]),
    (0xFCD5, [0x0646, 0x0645]), (0xFCD6, [0x0646, 0x0647]), (0xFCD7, [0x0647, 0x062C]),
    (0xFCD8, [0x0647, 0x0645]), (0xFCD9, [0x0647, 0x0670]), (0xFCDA, [0x064A, 0x062C]),
    (0xFCDB, [0x064A, 0x062D]), (0xFCDC, [0x064A, 0x062E]), (0xFCDD, [0x064A, 0x0645]),
    (0xFCDE, [0x064A, 0x0647]), (0xFCDF, [0x064A, 0x0654, 0x0645]),
    (0xFCE0, [0x064A, 0x0654, 0x0647]), (0xFCE1, [0x0628, 0x0645]), (0xFCE2, [0x0628, 0x0647]),
    (0xFCE3, [0x062A, 0x0645]), (0xFCE4, [0x062A, 0x0647]), (0xFCE5, [0x062B, 0x0645]),
    (0xFCE6, [0x062B, 0x0647]), (0xFCE7, [0x0633, 0x0645]), (0xFCE8, [0x0633, 0x0647]),
    (0xFCE9, [0x0634, 0x0645]), (0xFCEA, [0x0634, 0x0647]), (0xFCEB, [0x0643, 0x0644]),
    (0xFCEC, [0x0643, 0x0645]), (0xFCED, [0x0644, 0x0645]), (0xFCEE, [0x0646, 0x0645]),
    (0xFCEF, [0x0646, 0x0647]), (0xFCF0, [0x064A, 0x0645]), (0xFCF1, [0x064A, 0x0647]),
    (0xFCF2, [0x0640, 0x064E, 0x0651]), (0xFCF3, [0x0640, 0x064F, 0x0651]),
    (0xFCF4, [0x0640, 0x0650, 0x0651]), (0xFCF5, [0x0637, 0x0649]), (0xFCF6, [0x0637, 0x064A]),
    (0xFCF7, [0x0639, 0x0649]), (0xFCF8, [0x0639, 0x064A]), (0xFCF9, [0x063A, 0x0649]),
    (0xFCFA, [0x063A, 0x064A]), (0xFCFB, [0x0633, 0x0649]), (0xFCFC, [0x0633, 0x064A]),
    (0xFCFD, [0x0634, 0x0649]), (0xFCFE, [0x0634, 0x064A]), (0xFCFF, [0x062D, 0x0649]),
    (0xFD00, [0x062D, 0x064A]), (0xFD01, [0x062C, 0x0649]), (0xFD02, [0x062C, 0x064A]),
    (0xFD03, [0x062E, 0x0649]), (0xFD04, [0x062E, 0x064A]), (0xFD05, [0x0635, 0x0649]),
    (0xFD06, [0x0635, 0x064A]), (0xFD07, [0x0636, 0x0649]), (0xFD08, [0x0636, 0x064A]),
    (0xFD09, [0x0634, 0x062C]), (0xFD0A, [0x0634, 0x062D]), (0xFD0B, [0x0634, 0x062E]),
    (0xFD0C, [0x0634, 0x0645]), (0xFD0D, [0x0634, 0x0631]), (0xFD0E, [0x0633, 0x0631]),
    (0xFD0F, [0x0635, 0x0631]), (0xFD10, [0x0636, 0x0631]), (0xFD11, [0x0637, 0x0649]),
    (0xFD12, [0x0637, 0x064A]), (0xFD13, [0x0639, 0x0649]), (0xFD14, [0x0639, 0x064A]),
    (0xFD15, [0x063A, 0x0649]), (0xFD16, [0x063A, 0x064A]), (0xFD17, [0x0633, 0x0649]),
    (0xFD18, [0x0633, 0x064A]), (0xFD19, [0x0634, 0x0649]), (0xFD1A, [0x0634, 0x064A]),
    (0xFD1B, [0x062D, 0x0649]), (0xFD1C, [0x062D, 0x064A]), (0xFD1D, [0x062C, 0x0649]),
    (0xFD1E, [0x062C, 0x064A]), (0xFD1F, [0x062E, 0x0649]), (0xFD20, [0x062E, 0x064A]),
    (0xFD21, [0x0635, 0x0649]), (0xFD22, [0x0635, 0x064A]), (0xFD23, [0x0636, 0x0649]),
    (0xFD24, [0x0636, 0x064A]), (0xFD25, [0x0634, 0x062C]), (0xFD26, [0x0634, 0x062D]),
    (0xFD27, [0x0634, 0x062E]), (0xFD28, [0x0634, 0x0645]), (0xFD29, [0x0634, 0x0631]),
    (0xFD2A, [0x0633, 0x0631]), (0xFD2B, [0x0635, 0x0631]), (0xFD2C, [0x0636, 0x0631]),
    (0xFD2D, [0x0634, 0x062C]), (0xFD2E, [0x0634, 0x062D]), (0xFD2F, [0x0634, 0x062E]),
    (0xFD30, [0x0634, 0x0645]), (0xFD31, [0x0633, 0x0647]), (0xFD32, [0x0634, 0x0647]),
    (0xFD33, [0x0637, 0x0645]), (0xFD34, [0x0633, 0x062C]), (0xFD35, [0x0633, 0x062D]),
    (0xFD36, [0x0633, 0x062E]), (0xFD37, [0x0634, 0x062C]), (0xFD38, [0x0634, 0x062D]),
    (0xFD39, [0x0634, 0x062E]), (0xFD3A, [0x0637, 0x0645]), (0xFD3B, [0x0638, 0x0645]),
    (0xFD3C, [0x0627, 0x064B]), (0xFD3D, [0x0627, 0x064B]), (0xFD50, [0x062A, 0x062C, 0x0645]),
    (0xFD51, [0x062A, 0x062D, 0x062C]), (0xFD52, [0x062A, 0x062D, 0x062C]),
    (0xFD53, [0x062A, 0x062D, 0x0645]), (0xFD54, [0x062A, 0x062E, 0x0645]),
    (0xFD55, [0x062A, 0x0645, 0x062C]), (0xFD56, [0x062A, 0x0645, 0x062D]),
    (0xFD57, [0x062A, 0x0645, 0x062E]), (0xFD58, [0x062C, 0x0645, 0x062D]),
    (0xFD59, [0x062C, 0x0645, 0x062D]), (0xFD5A, [0x062D, 0x0645, 0x064A]),
    (0xFD5B, [0x062D, 0x0645, 0x0649]), (0xFD5C, [0x0633, 0x062D, 0x062C]),
    (0xFD5D, [0x0633, 0x062C, 0x062D]), (0xFD5E, [0x0633, 0x062C, 0x0649]),
    (0xFD5F, [0x0633, 0x0645, 0x062D]), (0xFD60, [0x0633, 0x0645, 0x062D]),
    (0xFD61, [0x0633, 0x0645, 0x062C]), (0xFD62, [0x0633, 0x0645, 0x0645]),
    (0xFD63, [0x0633, 0x0645, 0x0645]), (0xFD64, [0x0635, 0x062D, 0x062D]),
    (0xFD65, [0x0635, 0x062D, 0x062D]), (0xFD66, [0x0635, 0x0645, 0x0645]),
    (0xFD67, [0x0634, 0x062D, 0x0645]), (0xFD68, [0x0634, 0x062D, 0x0645]),
    (0xFD69, [0x0634, 0x062C, 0x064A]), (0xFD6A, [0x0634, 0x0645, 0x062E]),
    (0xFD6B, [0x0634, 0x0645, 0x062E]), (0xFD6C, [0x0634, 0x0645, 0x0645]),
    (0xFD6D, [0x0634, 0x0645, 0x0645]), (0xFD6E, [0x0636, 0x062D, 0x0649]),
    (0xFD6F, [0x0636, 0x062E, 0x0645]), (0xFD70, [0x0636, 0x062E, 0x0645]),
    (0xFD71, [0x0637, 0x0645, 0x062D]), (0xFD72, [0x0637, 0x0645, 0x062D]),
    (0xFD73, [0x0637, 0x0645, 0x0645]), (0xFD74, [0x0637, 0x0645, 0x064A]),
    (0xFD75, [0x0639, 0x062C, 0x0645]), (0xFD76, [0x0639, 0x0645, 0x0645]),
    (0xFD77, [0x0639, 0x0645, 0x0645]), (0xFD78, [0x0639, 0x0645, 0x0649]),
    (0xFD79, [0x063A, 0x0645, 0x0645]), (0xFD7A, [0x063A, 0x0645, 0x064A]),
    (0xFD7B, [0x063A, 0x0645, 0x0649]), (0xFD7C, [0x0641, 0x062E, 0x0645]),
    (0xFD7D, [0x0641, 0x062E, 0x0645]), (0xFD7E, [0x0642, 0x0645, 0x062D]),
    (0xFD7F, [0x0642, 0x0645, 0x0645]), (0xFD80, [0x0644, 0x062D, 0x0645]),
    (0xFD81, [0x0644, 0x062D, 0x064A]), (0xFD82, [0x0644, 0x062D, 0x0649]),
    (0xFD83, [0x0644, 0x062C, 0x062C]), (0xFD84, [0x0644, 0x062C, 0x062C]),
    (0xFD85, [0x0644, 0x062E, 0x0645]), (0xFD86, [0x0644, 0x062E, 0x0645]),
    (0xFD87, [0x0644, 0x0645, 0x062D]), (0xFD88, [0x0644, 0x0645, 0x062D]),
    (0xFD89, [0x0645, 0x062D, 0x062C]), (0xFD8A, [0x0645, 0x062D, 0x0645]),
    (0xFD8B, [0x0645, 0x062D, 0x064A]), (0xFD8C, [0x0645, 0x062C, 0x062D]),
    (0xFD8D, [0x0645, 0x062C, 0x0645]), (0xFD8E, [0x0645, 0x062E, 0x062C]),
    (0xFD8F, [0x0645, 0x062E, 0x0645]), (0xFD92, [0x0645, 0x062C, 0x062E]),
    (0xFD93, [0x0647, 0x0645, 0x062C]), (0xFD94, [0x0647, 0x0645, 0x0645]),
    (0xFD95, [0x0646, 0x062D, 0x0645]), (0xFD96, [0x0646, 0x062D, 0x0649]),
    (0xFD97, [0x0646, 0x062C, 0x0645]), (0xFD98, [0x0646, 0x062C, 0x0645]),
    (0xFD99, [0x0646, 0x062C, 0x0649]), (0xFD9A, [0x0646, 0x0645, 0x064A]),
    (0xFD9B, [0x0646, 0x0645, 0x0649]), (0xFD9C, [0x064A, 0x0645, 0x0645]),
    (0xFD9D, [0x064A, 0x0645, 0x0645]), (0xFD9E, [0x0628, 0x062E, 0x064A]),
    (0xFD9F, [0x062A, 0x062C, 0x064A]), (0xFDA0, [0x062A, 0x062C, 0x0649]),
    (0xFDA1, [0x062A, 0x062E, 0x064A]), (0xFDA2, [0x062A, 0x062E, 0x0649]),
    (0xFDA3, [0x062A, 0x0645, 0x064A]), (0xFDA4, [0x062A, 0x0645, 0x0649]),
    (0xFDA5, [0x062C, 0x0645, 0x064A]), (0xFDA6, [0x062C, 0x062D, 0x0649]),
    (0xFDA7, [0x062C, 0x0645, 0x0649]), (0xFDA8, [0x0633, 0x062E, 0x0649]),
    (0xFDA9, [0x0635, 0x062D, 0x064A]), (0xFDAA, [0x0634, 0x062D, 0x064A]),
    (0xFDAB, [0x0636, 0x062D, 0x064A]), (0xFDAC, [0x0644, 0x062C, 0x064A]),
    (0xFDAD, [0x0644, 0x0645, 0x064A]), (0xFDAE, [0x064A, 0x062D, 0x064A]),
    (0xFDAF, [0x064A, 0x062C, 0x064A]), (0xFDB0, [0x064A, 0x0645, 0x064A]),
    (0xFDB1, [0x0645, 0x0645, 0x064A]), (0xFDB2, [0x0642, 0x0645, 0x064A]),
    (0xFDB3, [0x0646, 0x062D, 0x064A]), (0xFDB4, [0x0642, 0x0645, 0x062D]),
    (0xFDB5, [0x0644, 0x062D, 0x0645]), (0xFDB6, [0x0639, 0x0645, 0x064A]),
    (0xFDB7, [0x0643, 0x0645, 0x064A]), (0xFDB8, [0x0646, 0x062C, 0x062D]),
    (0xFDB9, [0x0645, 0x062E, 0x064A]), (0xFDBA, [0x0644, 0x062C, 0x0645]),
    (0xFDBB, [0x0643, 0x0645, 0x0645]), (0xFDBC, [0x0644, 0x062C, 0x0645])]

def mtlNfkdTable5 : List (ℕ × List ℕ) :=
  [(0xFDBD, [0x0646, 0x062C, 0x062D]), (0xFDBE, [0x062C, 0x062D, 0x064A]),
    (0xFDBF, [0x062D, 0x062C, 0x064A]), (0xFDC0, [0x0645, 0x062C, 0x064A]),
    (0xFDC1, [0x0641, 0x0645, 0x064A]), (0xFDC2, [0x0628, 0x062D, 0x064A]),
    (0xFDC3, [0x0643, 0x0645, 0x0645]), (0xFDC4, [0x0639, 0x062C, 0x0645]),
    (0xFDC5, [0x0635, 0x0645, 0x0645]), (0xFDC6, [0x0633, 0x062E, 0x064A]),
    (0xFDC7, [0x0646, 0x062C, 0x064A]), (0xFDF0, [0x0635, 0x0644, 0x06D2]),
    (0xFDF1, [0x0642, 0x0644, 0x06D2]), (0xFDF2, [0x0627, 0x0644, 0x0644, 0x0647]),
    (0xFDF3, [0x0627, 0x0643, 0x0628, 0x0631]), (0xFDF4, [0x0645, 0x062D, 0x0645, 0x062F]),
    (0xFDF5, [0x0635, 0x0644, 0x0639, 0x0645]), (0xFDF6, [0x0631, 0x0633, 0x0648, 0x0644]),
    (0xFDF7, [0x0639, 0x0644, 0x064A, 0x0647]), (0xFDF8, [0x0648, 0x0633, 0x0644, 0x0645]),
    (0xFDF9, [0x0635, 0x0644, 0x0649]),
    (0xFDFA, [0x0635, 0x0644, 0x0649, 0x0020, 0x0627, 0x0644, 0x0644, 0x0647, 0x0020, 0x0639, 0x0644,
      0x064A, 0x0647, 0x0020, 0x0648, 0x0633, 0x0644, 0x0645]),
    (0xFDFB, [0x062C, 0x0644, 0x0020, 0x062C, 0x0644, 0x0627, 0x0644, 0x0647]),
    (0xFDFC, [0x0631, 0x06CC, 0x0627, 0x0644]), (0xFE30, [0x002E, 0x002E]), (0xFE31, [0x2014]),
    (0xFE32, [0x2013]), (0xFE33, [0x005F]), (0xFE34, [0x005F]), (0xFE35, [0x0028]),
    (0xFE36, [0x0029]), (0xFE37, [0x007B]), (0xFE38, [0x007D]), (0xFE39, [0x3014]),
    (0xFE3A, [0x3015]), (0xFE3B, [0x3010]), (0xFE3C, [0x3011]), (0xFE3D, [0x300A]),
    (0xFE3E, [0x300B]), (0xFE3F, [0x3008]), (0xFE40, [0x3009]), (0xFE41, [0x300C]),
    (0xFE42, [0x300D]), (0xFE43, [0x300E]), (0xFE44, [0x300F]), (0xFE47, [0x005B]),
    (0xFE48, [0x005D]), (0xFE49, [0x0020, 0x0305]), (0xFE4A, [0x0020, 0x0305]),
    (0xFE4B, [0x0020, 0x0305]), (0xFE4C, [0x0020, 0x0305]), (0xFE4D, [0x005F]), (0xFE4E, [0x005F]),
    (0xFE4F, [0x005F]), (0xFE70, [0x0020, 0x064B]), (0xFE71, [0x0640, 0x064B]),
    (0xFE72, [0x0020, 0x064C]), (0xFE74, [0x0020, 0x064D]), (0xFE76, [0x0020, 0x064E]),
    (0xFE77, [0x0640, 0x064E]), (0xFE78, [0x0020, 0x064F]), (0xFE79, [0x0640, 0x064F]),
    (0xFE7A, [0x0020, 0x0650]), (0xFE7B, [0x0640, 0x0650]), (0xFE7C, [0x0020, 0x0651]),
    (0xFE7D, [0x0640, 0x0651]), (0xFE7E, [0x0020, 0x0652]), (0xFE7F, [0x0640, 0x0652]),
    (0xFE80, [0x0621]), (0xFE81, [0x0627, 0x0653]), (0xFE82, [0x0627, 0x0653]),
    (0xFE83, [0x0627, 0x0654]), (0xFE84, [0x0627, 0x0654]), (0xFE85, [0x0648, 0x0654]),
    (0xFE86, [0x0648, 0x0654]), (0xFE87, [0x0627, 0x0655]), (0xFE88, [0x0627, 0x0655]),
    (0xFE89, [0x064A, 0x0654]), (0xFE8A, [0x064A, 0x0654]), (0xFE8B, [0x064A, 0x0654]),
    (0xFE8C, [0x064A, 0x0654]), (0xFE8D, [0x0627]), (0xFE8E, [0x0627]), (0xFE8F, [0x0628]),
    (0xFE90, [0x0628]), (0xFE91, [0x0628]), (0xFE92, [0x0628]), (0xFE93, [0x0629]),
    (0xFE94, [0x0629]), (0xFE95, [0x062A]), (0xFE96, [0x062A]), (0xFE97, [0x062A]),
    (0xFE98, [0x062A]), (0xFE99, [0x062B]), (0xFE9A, [0x062B]), (0xFE9B, [0x062B]),
    (0xFE9C, [0x062B]), (0xFE9D, [0x062C]), (0xFE9E, [0x062C]), (0xFE9F, [0x062C]),
    (0xFEA0, [0x062C]), (0xFEA1, [0x062D]), (0xFEA2, [0x062D]), (0xFEA3, [0x062D]),
    (0xFEA4, [0x062D]), (0xFEA5, [0x062E]), (0xFEA6, [0x062E]), (0xFEA7, [0x062E]),
    (0xFEA8, [0x062E]), (0xFEA9, [0x062F]), (0xFEAA, [0x062F]), (0xFEAB, [0x0630]),
    (0xFEAC, [0x0630]), (0xFEAD, [0x0631]), (0xFEAE, [0x0631]), (0xFEAF, [0x0632]),
    (0xFEB0, [0x0632]), (0xFEB1, [0x0633]), (0xFEB2, [0x0633]), (0xFEB3, [0x0633]),
    (0xFEB4, [0x0633]), (0xFEB5, [0x0634]), (0xFEB6, [0x0634]), (0xFEB7, [0x0634]),
    (0xFEB8, [0x0634]), (0xFEB9, [0x0635]), (0xFEBA, [0x0635]), (0xFEBB, [0x0635]),
    (0xFEBC, [0x0635]), (0xFEBD, [0x0636]), (0xFEBE, [0x0636]), (0xFEBF, [0x0636]),
    (0xFEC0, [0x0636]), (0xFEC1, [0x0637]), (0xFEC2, [0x0637]), (0xFEC3, [0x0637]),
    (0xFEC4, [0x0637]), (0xFEC5, [0x0638]), (0xFEC6, [0x0638]), (0xFEC7, [0x0638]),
    (0xFEC8, [0x0638]), (0xFEC9, [0x0639]), (0xFECA, [0x0639]), (0xFECB, [0x0639]),
    (0xFECC, [0x0639]), (0xFECD, [0x063A]), (0xFECE, [0x063A]), (0xFECF, [0x063A]),
    (0xFED0, [0x063A]), (0xFED1, [0x0641]), (0xFED2, [0x0641]), (0xFED3, [0x0641]),
    (0xFED4, [0x0641]), (0xFED5, [0x0642]), (0xFED6, [0x0642]), (0xFED7, [0x0642]),
    (0xFED8, [0x0642]), (0xFED9, [0x0643]), (0xFEDA, [0x0643]), (0xFEDB, [0x0643]),
    (0xFEDC, [0x0643]), (0xFEDD, [0x0644]), (0xFEDE, [0x0644]), (0xFEDF, [0x0644]),
    (0xFEE0, [0x0644]), (0xFEE1, [0x0645]), (0xFEE2, [0x0645]), (0xFEE3, [0x0645]),
    (0xFEE4, [0x0645]), (0xFEE5, [0x0646]), (0xFEE6, [0x0646]), (0xFEE7, [0x0646]),
    (0xFEE8, [0x0646]), (0xFEE9, [0x0647]), (0xFEEA, [0x0647]), (0xFEEB, [0x0647]),
    (0xFEEC, [0x0647]), (0xFEED, [0x0648]), (0xFEEE, [0x0648]), (0xFEEF, [0x0649]),
    (0xFEF0, [0x0649]), (0xFEF1, [0x064A]), (0xFEF2, [0x064A]), (0xFEF3, [0x064A]),
    (0xFEF4, [0x064A]), (0xFEF5, [0x0644, 0x0627, 0x0653]), (0xFEF6, [0x0644, 0x0627, 0x0653]),
    (0xFEF7, [0x0644, 0x0627, 0x0654]), (0xFEF8, [0x0644, 0x0627, 0x0654]),
    (0xFEF9, [0x0644, 0x0627, 0x0655]), (0xFEFA, [0x0644, 0x0627, 0x0655]),
    (0xFEFB, [0x0644, 0x0627]), (0xFEFC, [0x0644, 0x0627]), (0xFF01, [0x0021]), (0xFF02, [0x0022]),
    (0xFF03, [0x0023]), (0xFF04, [0x0024]), (0xFF05, [0x0025]), (0xFF06, [0x0026]),
    (0xFF07, [0x0027]), (0xFF08, [0x0028]), (0xFF09, [0x0029]), (0xFF0A, [0x002A]),
    (0xFF0B, [0x002B]), (0xFF0C, [0x002C]), (0xFF0D, [0x002D]), (0xFF0E, [0x002E]),
    (0xFF0F, [0x002F]), (0xFF10, [0x0030]), (0xFF11, [0x0031]), (0xFF12, [0x0032]),
    (0xFF13, [0x0033]), (0xFF14, [0x0034]), (0xFF15, [0x0035]), (0xFF16, [0x0036]),
    (0xFF17, [0x0037]), (0xFF18, [0x0038]), (0xFF19, [0x0039]), (0xFF1A, [0x003A]),
    (0xFF1B, [0x003B]), (0xFF1C, [0x003C]), (0xFF1D, [0x003D]), (0xFF1E, [0x003E]),
    (0xFF1F, [0x003F]), (0xFF20, [0x0040]), (0xFF21, [0x0041]), (0xFF22, [0x0042]),
    (0xFF23, [0x0043]), (0xFF24, [0x0044]), (0xFF25, [0x0045]), (0xFF26, [0x0046]),
    (0xFF27, [0x0047]), (0xFF28, [0x0048]), (0xFF29, [0x0049]), (0xFF2A, [0x004A]),
    (0xFF2B, [0x004B]), (0xFF2C, [0x004C]), (0xFF2D, [0x004D]), (0xFF2E, [0x004E]),
    (0xFF2F, [0x004F]), (0xFF30, [0x0050]), (0xFF31, [0x0051]), (0xFF32, [0x0052]),
    (0xFF33, [0x0053]), (0xFF34, [0x0054]), (0xFF35, [0x0055]), (0xFF36, [0x0056]),
    (0xFF37, [0x0057]), (0xFF38, [0x0058]), (0xFF39, [0x0059]), (0xFF3A, [0x005A]),
    (0xFF3B, [0x005B]), (0xFF3C, [0x005C]), (0xFF3D, [0x005D]), (0xFF3E, [0x005E]),
    (0xFF3F, [0x005F]), (0xFF40, [0x0060]), (0xFF41, [0x0061]), (0xFF42, [0x0062]),
    (0xFF43, [0x0063]), (0xFF44, [0x0064]), (0xFF45, [0x0065]), (0xFF46, [0x0066]),
    (0xFF47, [0x0067]), (0xFF48, [0x0068]), (0xFF49, [0x0069]), (0xFF4A, [0x006A]),
    (0xFF4B, [0x006B]), (0xFF4C, [0x006C]), (0xFF4D, [0x006D]), (0xFF4E, [0x006E]),
    (0xFF4F, [0x006F]), (0xFF50, [0x0070]), (0xFF51, [0x0071]), (0xFF52, [0x0072]),
    (0xFF53, [0x0073]), (0xFF54, [0x0074]), (0xFF55, [0x0075]), (0xFF56, [0x0076]),
    (0xFF57, [0x0077]), (0xFF58, [0x0078]), (0xFF59, [0x0079]), (0xFF5A, [0x007A]),
    (0xFF5B, [0x007B]), (0xFF5C, [0x007C]), (0xFF5D, [0x007D]), (0xFF5E, [0x007E]),
    (0xFF5F, [0x2985]), (0xFF60, [0x2986]), (0xFF61, [0x3002]), (0xFF62, [0x300C]),
    (0xFF63, [0x300D]), (0xFF64, [0x3001]), (0xFF65, [0x30FB]), (0xFF66, [0x30F2]),
    (0xFF67, [0x30A1]), (0xFF68, [0x30A3]), (0xFF69, [0x30A5]), (0xFF6A, [0x30A7]),
    (0xFF6B, [0x30A9]), (0xFF6C, [0x30E3]), (0xFF6D, [0x30E5]), (0xFF6E, [0x30E7]),
    (0xFF6F, [0x30C3]), (0xFF70, [0x30FC]), (0xFF71, [0x30A2]), (0xFF72, [0x30A4]),
    (0xFF73, [0x30A6]), (0xFF74, [0x30A8]), (0xFF75, [0x30AA]), (0xFF76, [0x30AB]),
    (0xFF77, [0x30AD]), (0xFF78, [0x30AF]), (0xFF79, [0x30B1]), (0xFF7A, [0x30B3]),
    (0xFF7B, [0x30B5]), (0xFF7C, [0x30B7]), (0xFF7D, [0x30B9]), (0xFF7E, [0x30BB]),
    (0xFF7F, [0x30BD]), (0xFF80, [0x30BF]), (0xFF81, [0x30C1]), (0xFF82, [0x30C4]),
    (0xFF83, [0x30C6]), (0xFF84, [0x30C8]), (0xFF85, [0x30CA]), (0xFF86, [0x30CB]),
    (0xFF87, [0x30CC]), (0xFF88, [0x30CD]), (0xFF89, [0x30CE]), (0xFF8A, [0x30CF]),
    (0xFF8B, [0x30D2]), (0xFF8C, [0x30D5]), (0xFF8D, [0x30D8]), (0xFF8E, [0x30DB]),
    (0xFF8F, [0x30DE]), (0xFF90, [0x30DF]), (0xFF91, [0x30E0]), (0xFF92, [0x30E1]),
    (0xFF93, [0x30E2]), (0xFF94, [0x30E4]), (0xFF95, [0x30E6]), (0xFF96, [0x30E8]),
    (0xFF97, [0x30E9]), (0xFF98, [0x30EA]), (0xFF99, [0x30EB]), (0xFF9A, [0x30EC]),
    (0xFF9B, [0x30ED]), (0xFF9C, [0x30EF]), (0xFF9D, [0x30F3]), (0xFF9E, [0x3099]),
    (0xFF9F, [0x309A]), (0xFFA0, [0x1160]), (0xFFA1, [0x1100]), (0xFFA2, [0x1101]),
    (0xFFA3, [0x11AA]), (0xFFA4, [0x1102]), (0xFFA5, [0x11AC]), (0xFFA6, [0x11AD]),
    (0xFFA7, [0x1103]), (0xFFA8, [0x1104]), (0xFFA9, [0x1105]), (0xFFAA, [0x11B0]),
    (0xFFAB, [0x11B1]), (0xFFAC, [0x11B2]), (0xFFAD, [0x11B3]), (0xFFAE, [0x11B4]),
    (0xFFAF, [0x11B5]), (0xFFB0, [0x111A]), (0xFFB1, [0x1106]), (0xFFB2, [0x1107]),
    (0xFFB3, [0x1108]), (0xFFB4, [0x1121]), (0xFFB5, [0x1109]), (0xFFB6, [0x110A]),
    (0xFFB7, [0x110B]), (0xFFB8, [0x110C]), (0xFFB9, [0x110D]), (0xFFBA, [0x110E]),
    (0xFFBB, [0x110F]), (0xFFBC, [0x1110]), (0xFFBD, [0x1111]), (0xFFBE, [0x1112]),
    (0xFFC2, [0x1161]), (0xFFC3, [0x1162]), (0xFFC4, [0x1163]), (0xFFC5, [0x1164]),
    (0xFFC6, [0x1165]), (0xFFC7, [0x1166]), (0xFFCA, [0x1167]), (0xFFCB, [0x1168]),
    (0xFFCC, [0x1169]), (0xFFCD, [0x116A]), (0xFFCE, [0x116B]), (0xFFCF, [0x116C]),
    (0xFFD2, [0x116D]), (0xFFD3, [0x116E]), (0xFFD4, [0x116F]), (0xFFD5, [0x1170]),
    (0xFFD6, [0x1171]), (0xFFD7, [0x1172]), (0xFFDA, [0x1173]), (0xFFDB, [0x1174]),
    (0xFFDC, [0x1175]), (0xFFE0, [0x00A2]), (0xFFE1, [0x00A3]), (0xFFE2, [0x00AC]),
    (0xFFE3, [0x0020, 0x0304]), (0xFFE4, [0x00A6]), (0xFFE5, [0x00A5]), (0xFFE6, [0x20A9]),
    (0xFFE8, [0x2502]), (0xFFE9, [0x2190]), (0xFFEA, [0x2191]), (0xFFEB, [0x2192]),
    (0xFFEC, [0x2193]), (0xFFED, [0x25A0]), (0xFFEE, [0x25CB])]

/-- `k_mtl_nfkd_table`, in order of the code points. -/
def mtlNfkdTable : List (ℕ × List ℕ) :=
  mtlNfkdTable0 ++ mtlNfkdTable1 ++ mtlNfkdTable2 ++
    mtlNfkdTable3 ++ mtlNfkdTable4 ++ mtlNfkdTable5

def mtlLowerTable0 : List (ℕ × List ℕ) :=
  [(0x00C0, [0x00E0]), (0x00C1, [0x00E1]), (0x00C2, [0x00E2]), (0x00C3, [0x00E3]),
    (0x00C4, [0x00E4]), (0x00C5, [0x00E5]), (0x00C6, [0x00E6]), (0x00C7, [0x00E7]),
    (0x00C8, [0x00E8]), (0x00C9, [0x00E9]), (0x00CA, [0x00EA]), (0x00CB, [0x00EB]),
    (0x00CC, [0x00EC]), (0x00CD, [0x00ED]), (0x00CE, [0x00EE]), (0x00CF, [0x00EF]),
    (0x00D0, [0x00F0]), (0x00D1, [0x00F1]), (0x00D2, [0x00F2]), (0x00D3, [0x00F3]),
    (0x00D4, [0x00F4]), (0x00D5, [0x00F5]), (0x00D6, [0x00F6]), (0x00D8, [0x00F8]),
    (0x00D9, [0x00F9]), (0x00DA, [0x00FA]), (0x00DB, [0x00FB]), (0x00DC, [0x00FC]),
    (0x00DD, [0x00FD]), (0x00DE, [0x00FE]), (0x0100, [0x0101]), (0x0102, [0x0103]),
    (0x0104, [0x0105]), (0x0106, [0x0107]), (0x0108, [0x0109]), (0x010A, [0x010B]),
    (0x010C, [0x010D]), (0x010E, [0x010F]), (0x0110, [0x0111]), (0x0112, [0x0113]),
    (0x0114, [0x0115]), (0x0116, [0x0117]), (0x0118, [0x0119]), (0x011A, [0x011B]),
    (0x011C, [0x011D]), (0x011E, [0x011F]), (0x0120, [0x0121]), (0x0122, [0x0123]),
    (0x0124, [0x0125]), (0x0126, [0x0127]), (0x0128, [0x0129]), (0x012A, [0x012B]),
    (0x012C, [0x012D]), (0x012E, [0x012F]), (0x0130, [0x0069, 0x0307]), (0x0132, [0x0133]),
    (0x0134, [0x0135]), (0x0136, [0x0137]), (0x0139, [0x013A]), (0x013B, [0x013C]),
    (0x013D, [0x013E]), (0x013F, [0x0140]), (0x0141, [0x0142]), (0x0143, [0x0144]),
    (0x0145, [0x0146]), (0x0147, [0x0148]), (0x014A, [0x014B]), (0x014C, [0x014D]),
    (0x014E, [0x014F]), (0x0150, [0x0151]), (0x0152, [0x0153]), (0x0154, [0x0155]),
    (0x0156, [0x0157]), (0x0158, [0x0159]), (0x015A, [0x015B]), (0x015C, [0x015D]),
    (0x015E, [0x015F]), (0x0160, [0x0161]), (0x0162, [0x0163]), (0x0164, [0x0165]),
    (0x0166, [0x0167]), (0x0168, [0x0169]), (0x016A, [0x016B]), (0x016C, [0x016D]),
    (0x016E, [0x016F]), (0x0170, [0x0171]), (0x0172, [0x0173]), (0x0174, [0x0175]),
    (0x0176, [0x0177]), (0x0178, [0x00FF]), (0x0179, [0x017A]), (0x017B, [0x017C]),
    (0x017D, [0x017E]), (0x0181, [0x0253]), (0x0182, [0x0183]), (0x0184, [0x0185]),
    (0x0186, [0x0254]), (0x0187, [0x0188]), (0x0189, [0x0256]), (0x018A, [0x0257]),
    (0x018B, [0x018C]), (0x018E, [0x01DD]), (0x018F, [0x0259]), (0x0190, [0x025B]),
    (0x0191, [0x0192]), (0x0193, [0x0260]), (0x0194, [0x0263]), (0x0196, [0x0269]),
    (0x0197, [0x0268]), (0x0198, [0x0199]), (0x019C, [0x026F]), (0x019D, [0x0272]),
    (0x019F, [0x0275]), (0x01A0, [0x01A1]), (0x01A2, [0x01A3]), (0x01A4, [0x01A5]),
    (0x01A6, [0x0280]), (0x01A7, [0x01A8]), (0x01A9, [0x0283]), (0x01AC, [0x01AD]),
    (0x01AE, [0x0288]), (0x01AF, [0x01B0]), (0x01B1, [0x028A]), (0x01B2, [0x028B]),
    (0x01B3, [0x01B4]), (0x01B5, [0x01B6]), (0x01B7, [0x0292]), (0x01B8, [0x01B9]),
    (0x01BC, [0x01BD]), (0x01C4, [0x01C6]), (0x01C5, [0x01C6]), (0x01C7, [0x01C9]),
    (0x01C8, [0x01C9]), (0x01CA, [0x01CC]), (0x01CB, [0x01CC]), (0x01CD, [0x01CE]),
    (0x01CF, [0x01D0]), (0x01D1, [0x01D2]), (0x01D3, [0x01D4]), (0x01D5, [0x01D6]),
    (0x01D7, [0x01D8]), (0x01D9, [0x01DA]), (0x01DB, [0x01DC]), (0x01DE, [0x01DF]),
    (0x01E0, [0x01E1]), (0x01E2, [0x01E3]), (0x01E4, [0x01E5]), (0x01E6, [0x01E7]),
    (0x01E8, [0x01E9]), (0x01EA, [0x01EB]), (0x01EC, [0x01ED]), (0x01EE, [0x01EF]),
    (0x01F1, [0x01F3]), (0x01F2, [0x01F3]), (0x01F4, [0x01F5]), (0x01F6, [0x0195]),
    (0x01F7, [0x01BF]), (0x01F8, [0x01F9]), (0x01FA, [0x01FB]), (0x01FC, [0x01FD]),
    (0x01FE, [0x01FF]), (0x0200, [0x0201]), (0x0202, [0x0203]), (0x0204, [0x0205]),
    (0x0206, [0x0207]), (0x0208, [0x0209]), (0x020A, [0x020B]), (0x020C, [0x020D]),
    (0x020E, [0x020F]), (0x0210, [0x0211]), (0x0212, [0x0213]), (0x0214, [0x0215]),
    (0x0216, [0x0217]), (0x0218, [0x0219]), (0x021A, [0x021B]), (0x021C, [0x021D]),
    (0x021E, [0x021F]), (0x0220, [0x019E]), (0x0222, [0x0223]), (0x0224, [0x0225]),
    (0x0226, [0x0227]), (0x0228, [0x0229]), (0x022A, [0x022B]), (0x022C, [0x022D]),
    (0x022E, [0x022F]), (0x0230, [0x0231]), (0x0232, [0x0233]), (0x023A, [0x2C65]),
    (0x023B, [0x023C]), (0x023D, [0x019A]), (0x023E, [0x2C66]), (0x0241, [0x0242]),
    (0x0243, [0x0180]), (0x0244, [0x0289]), (0x0245, [0x028C]), (0x0246, [0x0247]),
    (0x0248, [0x0249]), (0x024A, [0x024B]), (0x024C, [0x024D]), (0x024E, [0x024F]),
    (0x0370, [0x0371]), (0x0372, [0x0373]), (0x0376, [0x0377]), (0x037F, [0x03F3]),
    (0x0386, [0x03AC]), (0x0388, [0x03AD]), (0x0389, [0x03AE]), (0x038A, [0x03AF]),
    (0x038C, [0x03CC]), (0x038E, [0x03CD]), (0x038F, [0x03CE]), (0x0391, [0x03B1]),
    (0x0392, [0x03B2]), (0x0393, [0x03B3]), (0x0394, [0x03B4]), (0x0395, [0x03B5]),
    (0x0396, [0x03B6]), (0x0397, [0x03B7]), (0x0398, [0x03B8]), (0x0399, [0x03B9]),
    (0x039A, [0x03BA]), (0x039B, [0x03BB]), (0x039C, [0x03BC]), (0x039D, [0x03BD]),
    (0x039E, [0x03BE]), (0x039F, [0x03BF]), (0x03A0, [0x03C0]), (0x03A1, [0x03C1]),
    (0x03A3, [0x03C3]), (0x03A4, [0x03C4]), (0x03A5, [0x03C5]), (0x03A6, [0x03C6]),
    (0x03A7, [0x03C7]), (0x03A8, [0x03C8]), (0x03A9, [0x03C9]), (0x03AA, [0x03CA]),
    (0x03AB, [0x03CB]), (0x03CF, [0x03D7]), (0x03D8, [0x03D9]), (0x03DA, [0x03DB]),
    (0x03DC, [0x03DD]), (0x03DE, [0x03DF]), (0x03E0, [0x03E1]), (0x03E2, [0x03E3]),
    (0x03E4, [0x03E5]), (0x03E6, [0x03E7]), (0x03E8, [0x03E9]), (0x03EA, [0x03EB]),
    (0x03EC, [0x03ED]), (0x03EE, [0x03EF]), (0x03F4, [0x03B8]), (0x03F7, [0x03F8]),
    (0x03F9, [0x03F2]), (0x03FA, [0x03FB]), (0x03FD, [0x037B]), (0x03FE, [0x037C]),
    (0x03FF, [0x037D]), (0x0400, [0x0450]), (0x0401, [0x0451]), (0x0402, [0x0452]),
    (0x0403, [0x0453]), (0x0404, [0x0454]), (0x0405, [0x0455]), (0x0406, [0x0456]),
    (0x0407, [0x0457]), (0x0408, [0x0458]), (0x0409, [0x0459]), (0x040A, [0x045A]),
    (0x040B, [0x045B]), (0x040C, [0x045C]), (0x040D, [0x045D]), (0x040E, [0x045E]),
    (0x040F, [0x045F]), (0x0410, [0x0430]), (0x0411, [0x0431]), (0x0412, [0x0432]),
    (0x0413, [0x0433]), (0x0414, [0x0434]), (0x0415, [0x0435]), (0x0416, [0x0436]),
    (0x0417, [0x0437]), (0x0418, [0x0438]), (0x0419, [0x0439]), (0x041A, [0x043A]),
    (0x041B, [0x043B]), (0x041C, [0x043C]), (0x041D, [0x043D]), (0x041E, [0x043E]),
    (0x041F, [0x043F]), (0x0420, [0x0440]), (0x0421, [0x0441]), (0x0422, [0x0442]),
    (0x0423, [0x0443]), (0x0424, [0x0444]), (0x0425, [0x0445]), (0x0426, [0x0446]),
    (0x0427, [0x0447]), (0x0428, [0x0448]), (0x0429, [0x0449]), (0x042A, [0x044A]),
    (0x042B, [0x044B]), (0x042C, [0x044C]), (0x042D, [0x044D]), (0x042E, [0x044E]),
    (0x042F, [0x044F]), (0x0460, [0x0461]), (0x0462, [0x0463]), (0x0464, [0x0465]),
    (0x0466, [0x0467]), (0x0468, [0x0469]), (0x046A, [0x046B]), (0x046C, [0x046D]),
    (0x046E, [0x046F]), (0x0470, [0x0471]), (0x0472, [0x0473]), (0x0474, [0x0475]),
    (0x0476, [0x0477]), (0x0478, [0x0479]), (0x047A, [0x047B]), (0x047C, [0x047D]),
    (0x047E, [0x047F]), (0x0480, [0x0481]), (0x048A, [0x048B]), (0x048C, [0x048D]),
    (0x048E, [0x048F]), (0x0490, [0x0491]), (0x0492, [0x0493]), (0x0494, [0x0495]),
    (0x0496, [0x0497]), (0x0498, [0x0499]), (0x049A, [0x049B]), (0x049C, [0x049D]),
    (0x049E, [0x049F]), (0x04A0, [0x04A1]), (0x04A2, [0x04A3]), (0x04A4, [0x04A5]),
    (0x04A6, [0x04A7]), (0x04A8, [0x04A9]), (0x04AA, [0x04AB]), (0x04AC, [0x04AD]),
    (0x04AE, [0x04AF]), (0x04B0, [0x04B1]), (0x04B2, [0x04B3]), (0x04B4, [0x04B5]),
    (0x04B6, [0x04B7]), (0x04B8, [0x04B9]), (0x04BA, [0x04BB]), (0x04BC, [0x04BD]),
    (0x04BE, [0x04BF]), (0x04C0, [0x04CF])]

def mtlLowerTable1 : List (ℕ × List ℕ) :=
  [(0x04C1, [0x04C2]), (0x04C3, [0x04C4]), (0x04C5, [0x04C6]), (0x04C7, [0x04C8]),
    (0x04C9, [0x04CA]), (0x04CB, [0x04CC]), (0x04CD, [0x04CE]), (0x04D0, [0x04D1]),
    (0x04D2, [0x04D3]), (0x04D4, [0x04D5]), (0x04D6, [0x04D7]), (0x04D8, [0x04D9]),
    (0x04DA, [0x04DB]), (0x04DC, [0x04DD]), (0x04DE, [0x04DF]), (0x04E0, [0x04E1]),
    (0x04E2, [0x04E3]), (0x04E4, [0x04E5]), (0x04E6, [0x04E7]), (0x04E8, [0x04E9]),
    (0x04EA, [0x04EB]), (0x04EC, [0x04ED]), (0x04EE, [0x04EF]), (0x04F0, [0x04F1]),
    (0x04F2, [0x04F3]), (0x04F4, [0x04F5]), (0x04F6, [0x04F7]), (0x04F8, [0x04F9]),
    (0x04FA, [0x04FB]), (0x04FC, [0x04FD]), (0x04FE, [0x04FF]), (0x0500, [0x0501]),
    (0x0502, [0x0503]), (0x0504, [0x0505]), (0x0506, [0x0507]), (0x0508, [0x0509]),
    (0x050A, [0x050B]), (0x050C, [0x050D]), (0x050E, [0x050F]), (0x0510, [0x0511]),
    (0x0512, [0x0513]), (0x0514, [0x0515]), (0x0516, [0x0517]), (0x0518, [0x0519]),
    (0x051A, [0x051B]), (0x051C, [0x051D]), (0x051E, [0x051F]), (0x0520, [0x0521]),
    (0x0522, [0x0523]), (0x0524, [0x0525]), (0x0526, [0x0527]), (0x0528, [0x0529]),
    (0x052A, [0x052B]), (0x052C, [0x052D]), (0x052E, [0x052F]), (0x1E00, [0x1E01]),
    (0x1E02, [0x1E03]), (0x1E04, [0x1E05]), (0x1E06, [0x1E07]), (0x1E08, [0x1E09]),
    (0x1E0A, [0x1E0B]), (0x1E0C, [0x1E0D]), (0x1E0E, [0x1E0F]), (0x1E10, [0x1E11]),
    (0x1E12, [0x1E13]), (0x1E14, [0x1E15]), (0x1E16, [0x1E17]), (0x1E18, [0x1E19]),
    (0x1E1A, [0x1E1B]), (0x1E1C, [0x1E1D]), (0x1E1E, [0x1E1F]), (0x1E20, [0x1E21]),
    (0x1E22, [0x1E23]), (0x1E24, [0x1E25]), (0x1E26, [0x1E27]), (0x1E28, [0x1E29]),
    (0x1E2A, [0x1E2B]), (0x1E2C, [0x1E2D]), (0x1E2E, [0x1E2F]), (0x1E30, [0x1E31]),
    (0x1E32, [0x1E33]), (0x1E34, [0x1E35]), (0x1E36, [0x1E37]), (0x1E38, [0x1E39]),
    (0x1E3A, [0x1E3B]), (0x1E3C, [0x1E3D]), (0x1E3E, [0x1E3F]), (0x1E40, [0x1E41]),
    (0x1E42, [0x1E43]), (0x1E44, [0x1E45]), (0x1E46, [0x1E47]), (0x1E48, [0x1E49]),
    (0x1E4A, [0x1E4B]), (0x1E4C, [0x1E4D]), (0x1E4E, [0x1E4F]), (0x1E50, [0x1E51]),
    (0x1E52, [0x1E53]), (0x1E54, [0x1E55]), (0x1E56, [0x1E57]), (0x1E58, [0x1E59]),
    (0x1E5A, [0x1E5B]), (0x1E5C, [0x1E5D]), (0x1E5E, [0x1E5F]), (0x1E60, [0x1E61]),
    (0x1E62, [0x1E63]), (0x1E64, [0x1E65]), (0x1E66, [0x1E67]), (0x1E68, [0x1E69]),
    (0x1E6A, [0x1E6B]), (0x1E6C, [0x1E6D]), (0x1E6E, [0x1E6F]), (0x1E70, [0x1E71]),
    (0x1E72, [0x1E73]), (0x1E74, [0x1E75]), (0x1E76, [0x1E77]), (0x1E78, [0x1E79]),
    (0x1E7A, [0x1E7B]), (0x1E7C, [0x1E7D]), (0x1E7E, [0x1E7F]), (0x1E80, [0x1E81]),
    (0x1E82, [0x1E83]), (0x1E84, [0x1E85]), (0x1E86, [0x1E87]), (0x1E88, [0x1E89]),
    (0x1E8A, [0x1E8B]), (0x1E8C, [0x1E8D]), (0x1E8E, [0x1E8F]), (0x1E90, [0x1E91]),
    (0x1E92, [0x1E93]), (0x1E94, [0x1E95]), (0x1E9E, [0x00DF]), (0x1EA0, [0x1EA1]),
    (0x1EA2, [0x1EA3]), (0x1EA4, [0x1EA5]), (0x1EA6, [0x1EA7]), (0x1EA8, [0x1EA9]),
    (0x1EAA, [0x1EAB]), (0x1EAC, [0x1EAD]), (0x1EAE, [0x1EAF]), (0x1EB0, [0x1EB1]),
    (0x1EB2, [0x1EB3]), (0x1EB4, [0x1EB5]), (0x1EB6, [0x1EB7]), (0x1EB8, [0x1EB9]),
    (0x1EBA, [0x1EBB]), (0x1EBC, [0x1EBD]), (0x1EBE, [0x1EBF]), (0x1EC0, [0x1EC1]),
    (0x1EC2, [0x1EC3]), (0x1EC4, [0x1EC5]), (0x1EC6, [0x1EC7]), (0x1EC8, [0x1EC9]),
    (0x1ECA, [0x1ECB]), (0x1ECC, [0x1ECD]), (0x1ECE, [0x1ECF]), (0x1ED0, [0x1ED1]),
    (0x1ED2, [0x1ED3]), (0x1ED4, [0x1ED5]), (0x1ED6, [0x1ED7]), (0x1ED8, [0x1ED9]),
    (0x1EDA, [0x1EDB]), (0x1EDC, [0x1EDD]), (0x1EDE, [0x1EDF]), (0x1EE0, [0x1EE1]),
    (0x1EE2, [0x1EE3]), (0x1EE4, [0x1EE5]), (0x1EE6, [0x1EE7]), (0x1EE8, [0x1EE9]),
    (0x1EEA, [0x1EEB]), (0x1EEC, [0x1EED]), (0x1EEE, [0x1EEF]), (0x1EF0, [0x1EF1]),
    (0x1EF2, [0x1EF3]), (0x1EF4, [0x1EF5]), (0x1EF6, [0x1EF7]), (0x1EF8, [0x1EF9]),
    (0x1EFA, [0x1EFB]), (0x1EFC, [0x1EFD]), (0x1EFE, [0x1EFF]), (0x1F08, [0x1F00]),
    (0x1F09, [0x1F01]), (0x1F0A, [0x1F02]), (0x1F0B, [0x1F03]), (0x1F0C, [0x1F04]),
    (0x1F0D, [0x1F05]), (0x1F0E, [0x1F06]), (0x1F0F, [0x1F07]), (0x1F18, [0x1F10]),
    (0x1F19, [0x1F11]), (0x1F1A, [0x1F12]), (0x1F1B, [0x1F13]), (0x1F1C, [0x1F14]),
    (0x1F1D, [0x1F15]), (0x1F28, [0x1F20]), (0x1F29, [0x1F21]), (0x1F2A, [0x1F22]),
    (0x1F2B, [0x1F23]), (0x1F2C, [0x1F24]), (0x1F2D, [0x1F25]), (0x1F2E, [0x1F26]),
    (0x1F2F, [0x1F27]), (0x1F38, [0x1F30]), (0x1F39, [0x1F31]), (0x1F3A, [0x1F32]),
    (0x1F3B, [0x1F33]), (0x1F3C, [0x1F34]), (0x1F3D, [0x1F35]), (0x1F3E, [0x1F36]),
    (0x1F3F, [0x1F37]), (0x1F48, [0x1F40]), (0x1F49, [0x1F41]), (0x1F4A, [0x1F42]),
    (0x1F4B, [0x1F43]), (0x1F4C, [0x1F44]), (0x1F4D, [0x1F45]), (0x1F59, [0x1F51]),
    (0x1F5B, [0x1F53]), (0x1F5D, [0x1F55]), (0x1F5F, [0x1F57]), (0x1F68, [0x1F60]),
    (0x1F69, [0x1F61]), (0x1F6A, [0x1F62]), (0x1F6B, [0x1F63]), (0x1F6C, [0x1F64]),
    (0x1F6D, [0x1F65]), (0x1F6E, [0x1F66]), (0x1F6F, [0x1F67]), (0x1F88, [0x1F80]),
    (0x1F89, [0x1F81]), (0x1F8A, [0x1F82]), (0x1F8B, [0x1F83]), (0x1F8C, [0x1F84]),
    (0x1F8D, [0x1F85]), (0x1F8E, [0x1F86]), (0x1F8F, [0x1F87]), (0x1F98, [0x1F90]),
    (0x1F99, [0x1F91]), (0x1F9A, [0x1F92]), (0x1F9B, [0x1F93]), (0x1F9C, [0x1F94]),
    (0x1F9D, [0x1F95]), (0x1F9E, [0x1F96]), (0x1F9F, [0x1F97]), (0x1FA8, [0x1FA0]),
    (0x1FA9, [0x1FA1]), (0x1FAA, [0x1FA2]), (0x1FAB, [0x1FA3]), (0x1FAC, [0x1FA4]),
    (0x1FAD, [0x1FA5]), (0x1FAE, [0x1FA6]), (0x1FAF, [0x1FA7]), (0x1FB8, [0x1FB0]),
    (0x1FB9, [0x1FB1]), (0x1FBA, [0x1F70]), (0x1FBB, [0x1F71]), (0x1FBC, [0x1FB3]),
    (0x1FC8, [0x1F72]), (0x1FC9, [0x1F73]), (0x1FCA, [0x1F74]), (0x1FCB, [0x1F75]),
    (0x1FCC, [0x1FC3]), (0x1FD8, [0x1FD0]), (0x1FD9, [0x1FD1]), (0x1FDA, [0x1F76]),
    (0x1FDB, [0x1F77]), (0x1FE8, [0x1FE0]), (0x1FE9, [0x1FE1]), (0x1FEA, [0x1F7A]),
    (0x1FEB, [0x1F7B]), (0x1FEC, [0x1FE5]), (0x1FF8, [0x1F78]), (0x1FF9, [0x1F79]),
    (0x1FFA, [0x1F7C]), (0x1FFB, [0x1F7D]), (0x1FFC, [0x1FF3]), (0x2126, [0x03C9]),
    (0x212A, [0x006B]), (0x212B, [0x00E5]), (0x2132, [0x214E]), (0x2160, [0x2170]),
    (0x2161, [0x2171]), (0x2162, [0x2172]), (0x2163, [0x2173]), (0x2164, [0x2174]),
    (0x2165, [0x2175]), (0x2166, [0x2176]), (0x2167, [0x2177]), (0x2168, [0x2178]),
    (0x2169, [0x2179]), (0x216A, [0x217A]), (0x216B, [0x217B]), (0x216C, [0x217C]),
    (0x216D, [0x217D]), (0x216E, [0x217E]), (0x216F, [0x217F]), (0x2183, [0x2184]),
    (0x24B6, [0x24D0]), (0x24B7, [0x24D1]), (0x24B8, [0x24D2]), (0x24B9, [0x24D3]),
    (0x24BA, [0x24D4]), (0x24BB, [0x24D5]), (0x24BC, [0x24D6]), (0x24BD, [0x24D7]),
    (0x24BE, [0x24D8]), (0x24BF, [0x24D9]), (0x24C0, [0x24DA]), (0x24C1, [0x24DB]),
    (0x24C2, [0x24DC]), (0x24C3, [0x24DD]), (0x24C4, [0x24DE]), (0x24C5, [0x24DF]),
    (0x24C6, [0x24E0]), (0x24C7, [0x24E1]), (0x24C8, [0x24E2]), (0x24C9, [0x24E3]),
    (0x24CA, [0x24E4]), (0x24CB, [0x24E5]), (0x24CC, [0x24E6]), (0x24CD, [0x24E7]),
    (0x24CE, [0x24E8]), (0x24CF, [0x24E9]), (0xFF21, [0xFF41]), (0xFF22, [0xFF42]),
    (0xFF23, [0xFF43]), (0xFF24, [0xFF44]), (0xFF25, [0xFF45]), (0xFF26, [0xFF46]),
    (0xFF27, [0xFF47]), (0xFF28, [0xFF48]), (0xFF29, [0xFF49]), (0xFF2A, [0xFF4A]),
    (0xFF2B, [0xFF4B]), (0xFF2C, [0xFF4C]), (0xFF2D, [0xFF4D]), (0xFF2E, [0xFF4E]),
    (0xFF2F, [0xFF4F]), (0xFF30, [0xFF50]), (0xFF31, [0xFF51]), (0xFF32, [0xFF52]),
    (0xFF33, [0xFF53]), (0xFF34, [0xFF54]), (0xFF35, [0xFF55]), (0xFF36, [0xFF56]),
    (0xFF37, [0xFF57]), (0xFF38, [0xFF58]), (0xFF39, [0xFF59]), (0xFF3A, [0xFF5A])]

/-- `k_mtl_lower_table`, in order of the code points. -/
def mtlLowerTable : List (ℕ × List ℕ) :=
  mtlLowerTable0 ++ mtlLowerTable1

def mtlCccTable0 : List (ℕ × ℕ) :=
  [(0x0300, 230), (0x0301, 230), (0x0302, 230), (0x0303, 230), (0x0304, 230), (0x0305, 230),
    (0x0306, 230), (0x0307, 230), (0x0308, 230), (0x0309, 230), (0x030A, 230), (0x030B, 230),
    (0x030C, 230), (0x030D, 230), (0x030E, 230), (0x030F, 230), (0x0310, 230), (0x0311, 230),
    (0x0312, 230), (0x0313, 230), (0x0314, 230), (0x0315, 232), (0x0316, 220), (0x0317, 220),
    (0x0318, 220), (0x0319, 220), (0x031A, 232), (0x031B, 216), (0x031C, 220), (0x031D, 220),
    (0x031E, 220), (0x031F, 220), (0x0320, 220), (0x0321, 202), (0x0322, 202), (0x0323, 220),
    (0x0324, 220), (0x0325, 220), (0x0326, 220), (0x0327, 202), (0x0328, 202), (0x0329, 220),
    (0x032A, 220), (0x032B, 220), (0x032C, 220), (0x032D, 220), (0x032E, 220), (0x032F, 220),
    (0x0330, 220), (0x0331, 220), (0x0332, 220), (0x0333, 220), (0x0334, 1), (0x0335, 1),
    (0x0336, 1), (0x0337, 1), (0x0338, 1), (0x0339, 220), (0x033A, 220), (0x033B, 220),
    (0x033C, 220), (0x033D, 230), (0x033E, 230), (0x033F, 230), (0x0340, 230), (0x0341, 230),
    (0x0342, 230), (0x0343, 230), (0x0344, 230), (0x0345, 240), (0x0346, 230), (0x0347, 220),
    (0x0348, 220), (0x0349, 220), (0x034A, 230), (0x034B, 230), (0x034C, 230), (0x034D, 220),
    (0x034E, 220), (0x0350, 230), (0x0351, 230), (0x0352, 230), (0x0353, 220), (0x0354, 220),
    (0x0355, 220), (0x0356, 220), (0x0357, 230), (0x0358, 232), (0x0359, 220), (0x035A, 220),
    (0x035B, 230), (0x035C, 233), (0x035D, 234), (0x035E, 234), (0x035F, 233), (0x0360, 234),
    (0x0361, 234), (0x0362, 233), (0x0363, 230), (0x0364, 230), (0x0365, 230), (0x0366, 230),
    (0x0367, 230), (0x0368, 230), (0x0369, 230), (0x036A, 230), (0x036B, 230), (0x036C, 230),
    (0x036D, 230), (0x036E, 230), (0x036F, 230), (0x0483, 230), (0x0484, 230), (0x0485, 230),
    (0x0486, 230), (0x0487, 230), (0x0591, 220), (0x0592, 230), (0x0593, 230), (0x0594, 230),
    (0x0595, 230), (0x0596, 220), (0x0597, 230), (0x0598, 230), (0x0599, 230), (0x059A, 222),
    (0x059B, 220), (0x059C, 230), (0x059D, 230), (0x059E, 230), (0x059F, 230), (0x05A0, 230),
    (0x05A1, 230), (0x05A2, 220), (0x05A3, 220), (0x05A4, 220), (0x05A5, 220), (0x05A6, 220),
    (0x05A7, 220), (0x05A8, 230), (0x05A9, 230), (0x05AA, 220), (0x05AB, 230), (0x05AC, 230),
    (0x05AD, 222), (0x05AE, 228), (0x05AF, 230), (0x05B0, 10), (0x05B1, 11), (0x05B2, 12),
    (0x05B3, 13), (0x05B4, 14), (0x05B5, 15), (0x05B6, 16), (0x05B7, 17), (0x05B8, 18),
    (0x05B9, 19), (0x05BA, 19), (0x05BB, 20), (0x05BC, 21), (0x05BD, 22), (0x05BF, 23),
    (0x05C1, 24), (0x05C2, 25), (0x05C4, 230), (0x05C5, 220), (0x05C7, 18), (0x0610, 230),
    (0x0611, 230), (0x0612, 230), (0x0613, 230), (0x0614, 230), (0x0615, 230), (0x0616, 230),
    (0x0617, 230), (0x0618, 30), (0x0619, 31), (0x061A, 32), (0x064B, 27), (0x064C, 28),
    (0x064D, 29), (0x064E, 30), (0x064F, 31), (0x0650, 32), (0x0651, 33), (0x0652, 34),
    (0x0653, 230), (0x0654, 230), (0x0655, 220), (0x0656, 220), (0x0657, 230), (0x0658, 230),
    (0x0659, 230), (0x065A, 230), (0x065B, 230), (0x065C, 220), (0x065D, 230), (0x065E, 230),
    (0x065F, 220), (0x0670, 35), (0x06D6, 230), (0x06D7, 230), (0x06D8, 230), (0x06D9, 230),
    (0x06DA, 230), (0x06DB, 230), (0x06DC, 230), (0x06DF, 230), (0x06E0, 230), (0x06E1, 230),
    (0x06E2, 230), (0x06E3, 220), (0x06E4, 230), (0x06E7, 230), (0x06E8, 230), (0x06EA, 220),
    (0x06EB, 230), (0x06EC, 230), (0x06ED, 220), (0x0711, 36), (0x0730, 230), (0x0731, 220),
    (0x0732, 230), (0x0733, 230), (0x0734, 220), (0x0735, 230), (0x0736, 230), (0x0737, 220),
    (0x0738, 220), (0x0739, 220), (0x073A, 230), (0x073B, 220), (0x073C, 220), (0x073D, 230),
    (0x073E, 220), (0x073F, 230), (0x0740, 230), (0x0741, 230), (0x0742, 220), (0x0743, 230),
    (0x0744, 220), (0x0745, 230), (0x0746, 220), (0x0747, 230), (0x0748, 220), (0x0749, 230),
    (0x074A, 230), (0x07EB, 230), (0x07EC, 230), (0x07ED, 230), (0x07EE, 230), (0x07EF, 230),
    (0x07F0, 230), (0x07F1, 230), (0x07F2, 220), (0x07F3, 230), (0x07FD, 220), (0x0816, 230),
    (0x0817, 230), (0x0818, 230), (0x0819, 230), (0x081B, 230), (0x081C, 230), (0x081D, 230),
    (0x081E, 230), (0x081F, 230), (0x0820, 230), (0x0821, 230), (0x0822, 230), (0x0823, 230),
    (0x0825, 230), (0x0826, 230), (0x0827, 230), (0x0829, 230), (0x082A, 230), (0x082B, 230),
    (0x082C, 230), (0x082D, 230), (0x0859, 220), (0x085A, 220), (0x085B, 220), (0x0898, 230),
    (0x0899, 220), (0x089A, 220), (0x089B, 220), (0x089C, 230), (0x089D, 230), (0x089E, 230),
    (0x089F, 230), (0x08CA, 230), (0x08CB, 230), (0x08CC, 230), (0x08CD, 230), (0x08CE, 230),
    (0x08CF, 220), (0x08D0, 220), (0x08D1, 220), (0x08D2, 220), (0x08D3, 220), (0x08D4, 230),
    (0x08D5, 230), (0x08D6, 230), (0x08D7, 230), (0x08D8, 230), (0x08D9, 230), (0x08DA, 230),
    (0x08DB, 230), (0x08DC, 230), (0x08DD, 230), (0x08DE, 230), (0x08DF, 230), (0x08E0, 230),
    (0x08E1, 230), (0x08E3, 220), (0x08E4, 230), (0x08E5, 230), (0x08E6, 220), (0x08E7, 230),
    (0x08E8, 230), (0x08E9, 220), (0x08EA, 230), (0x08EB, 230), (0x08EC, 230), (0x08ED, 220),
    (0x08EE, 220), (0x08EF, 220), (0x08F0, 27), (0x08F1, 28), (0x08F2, 29), (0x08F3, 230),
    (0x08F4, 230), (0x08F5, 230), (0x08F6, 220), (0x08F7, 230), (0x08F8, 230), (0x08F9, 220),
    (0x08FA, 220), (0x08FB, 230), (0x08FC, 230), (0x08FD, 230), (0x08FE, 230), (0x08FF, 230),
    (0x093C, 7), (0x094D, 9), (0x0951, 230), (0x0952, 220), (0x0953, 230), (0x0954, 230),
    (0x09BC, 7), (0x09CD, 9), (0x09FE, 230), (0x0A3C, 7), (0x0A4D, 9), (0x0ABC, 7), (0x0ACD, 9),
    (0x0B3C, 7), (0x0B4D, 9), (0x0BCD, 9), (0x0C3C, 7), (0x0C4D, 9), (0x0C55, 84), (0x0C56, 91),
    (0x0CBC, 7), (0x0CCD, 9), (0x0D3B, 9), (0x0D3C, 9), (0x0D4D, 9), (0x0DCA, 9), (0x0E38, 103),
    (0x0E39, 103), (0x0E3A, 9), (0x0E48, 107), (0x0E49, 107), (0x0E4A, 107), (0x0E4B, 107),
    (0x0EB8, 118), (0x0EB9, 118), (0x0EBA, 9), (0x0EC8, 122), (0x0EC9, 122), (0x0ECA, 122),
    (0x0ECB, 122), (0x0F18, 220), (0x0F19, 220), (0x0F35, 220), (0x0F37, 220), (0x0F39, 216),
    (0x0F71, 129), (0x0F72, 130), (0x0F74, 132), (0x0F7A, 130), (0x0F7B, 130), (0x0F7C, 130),
    (0x0F7D, 130), (0x0F80, 130), (0x0F82, 230), (0x0F83, 230), (0x0F84, 9), (0x0F86, 230),
    (0x0F87, 230), (0x0FC6, 220), (0x1037, 7), (0x1039, 9), (0x103A, 9), (0x108D, 220),
    (0x135D, 230), (0x135E, 230), (0x135F, 230), (0x1714, 9), (0x1715, 9), (0x1734, 9),
    (0x17D2, 9), (0x17DD, 230), (0x18A9, 228), (0x1939, 222), (0x193A, 230), (0x193B, 220),
    (0x1A17, 230), (0x1A18, 220), (0x1A60, 9), (0x1A75, 230), (0x1A76, 230), (0x1A77, 230),
    (0x1A78, 230), (0x1A79, 230), (0x1A7A, 230), (0x1A7B, 230), (0x1A7C, 230), (0x1A7F, 220),
    (0x1AB0, 230), (0x1AB1, 230), (0x1AB2, 230), (0x1AB3, 230), (0x1AB4, 230), (0x1AB5, 220),
    (0x1AB6, 220), (0x1AB7, 220), (0x1AB8, 220), (0x1AB9, 220), (0x1ABA, 220), (0x1ABB, 230),
    (0x1ABC, 230), (0x1ABD, 220), (0x1ABF, 220), (0x1AC0, 220), (0x1AC1, 230), (0x1AC2, 230),
    (0x1AC3, 220), (0x1AC4, 220), (0x1AC5, 230), (0x1AC6, 230), (0x1AC7, 230), (0x1AC8, 230),
    (0x1AC9, 230), (0x1ACA, 220), (0x1ACB, 230), (0x1ACC, 230), (0x1ACD, 230), (0x1ACE, 230),
    (0x1B34, 7), (0x1B44, 9), (0x1B6B, 230)]

def mtlCccTable1 : List (ℕ × ℕ) :=
  [(0x1B6C, 220), (0x1B6D, 230), (0x1B6E, 230), (0x1B6F, 230), (0x1B70, 230), (0x1B71, 230),
    (0x1B72, 230), (0x1B73, 230), (0x1BAA, 9), (0x1BAB, 9), (0x1BE6, 7), (0x1BF2, 9), (0x1BF3, 9),
    (0x1C37, 7), (0x1CD0, 230), (0x1CD1, 230), (0x1CD2, 230), (0x1CD4, 1), (0x1CD5, 220),
    (0x1CD6, 220), (0x1CD7, 220), (0x1CD8, 220), (0x1CD9, 220), (0x1CDA, 230), (0x1CDB, 230),
    (0x1CDC, 220), (0x1CDD, 220), (0x1CDE, 220), (0x1CDF, 220), (0x1CE0, 230), (0x1CE2, 1),
    (0x1CE3, 1), (0x1CE4, 1), (0x1CE5, 1), (0x1CE6, 1), (0x1CE7, 1), (0x1CE8, 1), (0x1CED, 220),
    (0x1CF4, 230), (0x1CF8, 230), (0x1CF9, 230), (0x1DC0, 230), (0x1DC1, 230), (0x1DC2, 220),
    (0x1DC3, 230), (0x1DC4, 230), (0x1DC5, 230), (0x1DC6, 230), (0x1DC7, 230), (0x1DC8, 230),
    (0x1DC9, 230), (0x1DCA, 220), (0x1DCB, 230), (0x1DCC, 230), (0x1DCD, 234), (0x1DCE, 214),
    (0x1DCF, 220), (0x1DD0, 202), (0x1DD1, 230), (0x1DD2, 230), (0x1DD3, 230), (0x1DD4, 230),
    (0x1DD5, 230), (0x1DD6, 230), (0x1DD7, 230), (0x1DD8, 230), (0x1DD9, 230), (0x1DDA, 230),
    (0x1DDB, 230), (0x1DDC, 230), (0x1DDD, 230), (0x1DDE, 230), (0x1DDF, 230), (0x1DE0, 230),
    (0x1DE1, 230), (0x1DE2, 230), (0x1DE3, 230), (0x1DE4, 230), (0x1DE5, 230), (0x1DE6, 230),
    (0x1DE7, 230), (0x1DE8, 230), (0x1DE9, 230), (0x1DEA, 230), (0x1DEB, 230), (0x1DEC, 230),
    (0x1DED, 230), (0x1DEE, 230), (0x1DEF, 230), (0x1DF0, 230), (0x1DF1, 230), (0x1DF2, 230),
    (0x1DF3, 230), (0x1DF4, 230), (0x1DF5, 230), (0x1DF6, 232), (0x1DF7, 228), (0x1DF8, 228),
    (0x1DF9, 220), (0x1DFA, 218), (0x1DFB, 230), (0x1DFC, 233), (0x1DFD, 220), (0x1DFE, 230),
    (0x1DFF, 220), (0x20D0, 230), (0x20D1, 230), (0x20D2, 1), (0x20D3, 1), (0x20D4, 230),
    (0x20D5, 230), (0x20D6, 230), (0x20D7, 230), (0x20D8, 1), (0x20D9, 1), (0x20DA, 1),
    (0x20DB, 230), (0x20DC, 230), (0x20E1, 230), (0x20E5, 1), (0x20E6, 1), (0x20E7, 230),
    (0x20E8, 220), (0x20E9, 230), (0x20EA, 1), (0x20EB, 1), (0x20EC, 220), (0x20ED, 220),
    (0x20EE, 220), (0x20EF, 220), (0x20F0, 230), (0x2CEF, 230), (0x2CF0, 230), (0x2CF1, 230),
    (0x2D7F, 9), (0x2DE0, 230), (0x2DE1, 230), (0x2DE2, 230), (0x2DE3, 230), (0x2DE4, 230),
    (0x2DE5, 230), (0x2DE6, 230), (0x2DE7, 230), (0x2DE8, 230), (0x2DE9, 230), (0x2DEA, 230),
    (0x2DEB, 230), (0x2DEC, 230), (0x2DED, 230), (0x2DEE, 230), (0x2DEF, 230), (0x2DF0, 230),
    (0x2DF1, 230), (0x2DF2, 230), (0x2DF3, 230), (0x2DF4, 230), (0x2DF5, 230), (0x2DF6, 230),
    (0x2DF7, 230), (0x2DF8, 230), (0x2DF9, 230), (0x2DFA, 230), (0x2DFB, 230), (0x2DFC, 230),
    (0x2DFD, 230), (0x2DFE, 230), (0x2DFF, 230), (0x302A, 218), (0x302B, 228), (0x302C, 232),
    (0x302D, 222), (0x302E, 224), (0x302F, 224), (0x3099, 8), (0x309A, 8), (0xA66F, 230),
    (0xA674, 230), (0xA675, 230), (0xA676, 230), (0xA677, 230), (0xA678, 230), (0xA679, 230),
    (0xA67A, 230), (0xA67B, 230), (0xA67C, 230), (0xA67D, 230), (0xA69E, 230), (0xA69F, 230),
    (0xA6F0, 230), (0xA6F1, 230), (0xA806, 9), (0xA82C, 9), (0xA8C4, 9), (0xA8E0, 230),
    (0xA8E1, 230), (0xA8E2, 230), (0xA8E3, 230), (0xA8E4, 230), (0xA8E5, 230), (0xA8E6, 230),
    (0xA8E7, 230), (0xA8E8, 230), (0xA8E9, 230), (0xA8EA, 230), (0xA8EB, 230), (0xA8EC, 230),
    (0xA8ED, 230), (0xA8EE, 230), (0xA8EF, 230), (0xA8F0, 230), (0xA8F1, 230), (0xA92B, 220),
    (0xA92C, 220), (0xA92D, 220), (0xA953, 9), (0xA9B3, 7), (0xA9C0, 9), (0xAAB0, 230),
    (0xAAB2, 230), (0xAAB3, 230), (0xAAB4, 220), (0xAAB7, 230), (0xAAB8, 230), (0xAABE, 230),
    (0xAABF, 230), (0xAAC1, 230), (0xAAF6, 9), (0xABED, 9), (0xFB1E, 26), (0xFE20, 230),
    (0xFE21, 230), (0xFE22, 230), (0xFE23, 230), (0xFE24, 230), (0xFE25, 230), (0xFE26, 230),
    (0xFE27, 220), (0xFE28, 220), (0xFE29, 220), (0xFE2A, 220), (0xFE2B, 220), (0xFE2C, 220),
    (0xFE2D, 220), (0xFE2E, 230), (0xFE2F, 230), (0x101FD, 220), (0x102E0, 220), (0x10376, 230),
    (0x10377, 230), (0x10378, 230), (0x10379, 230), (0x1037A, 230), (0x10A0D, 220), (0x10A0F, 230),
    (0x10A38, 230), (0x10A39, 1), (0x10A3A, 220), (0x10A3F, 9), (0x10AE5, 230), (0x10AE6, 220),
    (0x10D24, 230), (0x10D25, 230), (0x10D26, 230), (0x10D27, 230), (0x10EAB, 230), (0x10EAC, 230),
    (0x10EFD, 220), (0x10EFE, 220), (0x10EFF, 220), (0x10F46, 220), (0x10F47, 220), (0x10F48, 230),
    (0x10F49, 230), (0x10F4A, 230), (0x10F4B, 220), (0x10F4C, 230), (0x10F4D, 220), (0x10F4E, 220),
    (0x10F4F, 220), (0x10F50, 220), (0x10F82, 230), (0x10F83, 220), (0x10F84, 230), (0x10F85, 220),
    (0x11046, 9), (0x11070, 9), (0x1107F, 9), (0x110B9, 9), (0x110BA, 7), (0x11100, 230),
    (0x11101, 230), (0x11102, 230), (0x11133, 9), (0x11134, 9), (0x11173, 7), (0x111C0, 9),
    (0x111CA, 7), (0x11235, 9), (0x11236, 7), (0x112E9, 7), (0x112EA, 9), (0x1133B, 7),
    (0x1133C, 7), (0x1134D, 9), (0x11366, 230), (0x11367, 230), (0x11368, 230), (0x11369, 230),
    (0x1136A, 230), (0x1136B, 230), (0x1136C, 230), (0x11370, 230), (0x11371, 230), (0x11372, 230),
    (0x11373, 230), (0x11374, 230), (0x11442, 9), (0x11446, 7), (0x1145E, 230), (0x114C2, 9),
    (0x114C3, 7), (0x115BF, 9), (0x115C0, 7), (0x1163F, 9), (0x116B6, 9), (0x116B7, 7),
    (0x1172B, 9), (0x11839, 9), (0x1183A, 7), (0x1193D, 9), (0x1193E, 9), (0x11943, 7),
    (0x119E0, 9), (0x11A34, 9), (0x11A47, 9), (0x11A99, 9), (0x11C3F, 9), (0x11D42, 7),
    (0x11D44, 9), (0x11D45, 9), (0x11D97, 9), (0x11F41, 9), (0x11F42, 9), (0x16AF0, 1),
    (0x16AF1, 1), (0x16AF2, 1), (0x16AF3, 1), (0x16AF4, 1), (0x16B30, 230), (0x16B31, 230),
    (0x16B32, 230), (0x16B33, 230), (0x16B34, 230), (0x16B35, 230), (0x16B36, 230), (0x16FF0, 6),
    (0x16FF1, 6), (0x1BC9E, 1), (0x1D165, 216), (0x1D166, 216), (0x1D167, 1), (0x1D168, 1),
    (0x1D169, 1), (0x1D16D, 226), (0x1D16E, 216), (0x1D16F, 216), (0x1D170, 216), (0x1D171, 216),
    (0x1D172, 216), (0x1D17B, 220), (0x1D17C, 220), (0x1D17D, 220), (0x1D17E, 220), (0x1D17F, 220),
    (0x1D180, 220), (0x1D181, 220), (0x1D182, 220), (0x1D185, 230), (0x1D186, 230), (0x1D187, 230),
    (0x1D188, 230), (0x1D189, 230), (0x1D18A, 220), (0x1D18B, 220), (0x1D1AA, 230), (0x1D1AB, 230),
    (0x1D1AC, 230), (0x1D1AD, 230), (0x1D242, 230), (0x1D243, 230), (0x1D244, 230), (0x1E000, 230),
    (0x1E001, 230), (0x1E002, 230), (0x1E003, 230), (0x1E004, 230), (0x1E005, 230), (0x1E006, 230),
    (0x1E008, 230), (0x1E009, 230), (0x1E00A, 230), (0x1E00B, 230), (0x1E00C, 230), (0x1E00D, 230),
    (0x1E00E, 230), (0x1E00F, 230), (0x1E010, 230), (0x1E011, 230), (0x1E012, 230), (0x1E013, 230),
    (0x1E014, 230), (0x1E015, 230), (0x1E016, 230), (0x1E017, 230), (0x1E018, 230), (0x1E01B, 230),
    (0x1E01C, 230), (0x1E01D, 230), (0x1E01E, 230), (0x1E01F, 230), (0x1E020, 230), (0x1E021, 230),
    (0x1E023, 230), (0x1E024, 230), (0x1E026, 230), (0x1E027, 230), (0x1E028, 230), (0x1E029, 230),
    (0x1E02A, 230), (0x1E08F, 230), (0x1E130, 230), (0x1E131, 230), (0x1E132, 230), (0x1E133, 230),
    (0x1E134, 230), (0x1E135, 230), (0x1E136, 230), (0x1E2AE, 230), (0x1E2EC, 230), (0x1E2ED, 230),
    (0x1E2EE, 230), (0x1E2EF, 230), (0x1E4EC, 232), (0x1E4ED, 232), (0x1E4EE, 220), (0x1E4EF, 230),
    (0x1E8D0, 220), (0x1E8D1, 220), (0x1E8D2, 220), (0x1E8D3, 220), (0x1E8D4, 220), (0x1E8D5, 220),
    (0x1E8D6, 220), (0x1E944, 230), (0x1E945, 230), (0x1E946, 230), (0x1E947, 230), (0x1E948, 230),
    (0x1E949, 230), (0x1E94A, 7)]

/-- `k_mtl_ccc_table`, in order of the code points. -/
def mtlCccTable : List (ℕ × ℕ) :=
  mtlCccTable0 ++ mtlCccTable1

end Chatterbox

end WhisperCpp
